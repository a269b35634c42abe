import Rsurl.Aio.Exchange
import Rsurl.Http.Head
import Rsurl.Http.Versions
import Rsurl.Numeral
import Rsurl.Split
import Rsurl.Utf8

/-!
# How the asynchronous client frames its requests

It writes the caller's method, names and values as they are, and the caller's fields with every
request of an exchange, whether or not a redirect has dropped the body that they describe. A request
is read back as it was meant exactly if no text of the caller holds a line end, and no framing field
is left without its body.
-/

namespace Rsurl.Aio

open Text Hpack Library
open Http2 (Url)
open Http (OneLine Visible VisibleUrl fieldLine valuesOf)

/-! ## Writing -/

def requestLine (r : Written) : String := s!"{r.method} {r.target} HTTP/1.1"

/-- `encode_request` -/
def encodeRequest (r : Written) : Bytes :=
  asBytes r.method ++ [0x20] ++ asBytes r.target ++ asBytes " HTTP/1.1\r\n" ++
    r.headers.flatMap (fun h => asBytes h.1 ++ asBytes ": " ++ asBytes h.2 ++ [0x0d, 0x0a]) ++
      [0x0d, 0x0a] ++ r.body

/-! ## Reading -/

/-- The number that a field says, and nothing else. -/
def lengthOf (value : String) : Option Nat :=
  let digits := trim value
  if digits = "" ∨ ¬allDigits digits then none else some (Nat.ofDigitChars 10 digits.toList 0)

/-- The last of the codings in the fields. -/
def lastCoding (values : List String) : String :=
  trim (((values.getLast?.map (split ',')).getD []).getLastD "")

/-- Not an end of a line. -/
def Inline (bytes : Bytes) : Prop := ∀ b ∈ bytes, b ≠ 0x0d ∧ b ≠ 0x0a

/-- A size in hexadecimal, and its extensions. -/
structure ChunkLine (line : Bytes) (size : Nat) : Prop where
  reads : ∃ digits ext, line = digits ++ ext ∧ digits ≠ [] ∧
    (∀ b ∈ digits, isAsciiHexdigit b = true) ∧
    digits.foldl (fun n b => n * 16 + hexValue b) 0 = size ∧
    (ext = [] ∨ ext.head? = some 0x3b) ∧ Inline ext

/-- A body in chunks, the last of which is empty and followed by trailers. -/
inductive Chunked : Bytes → Prop where
  | last (line : Bytes) (trailers : List Bytes) (hline : ChunkLine line 0)
    (htrailers : ∀ t ∈ trailers, t ≠ [] ∧ Inline t) :
    Chunked (line ++ [0x0d, 0x0a] ++ LineEnds.joinLines 0x0d 0x0a trailers ++ [0x0d, 0x0a])
  | chunk (line data rest : Bytes) (hline : ChunkLine line data.length) (hdata : data ≠ [])
    (hrest : Chunked rest) :
    Chunked (line ++ [0x0d, 0x0a] ++ data ++ [0x0d, 0x0a] ++ rest)

/-- What the framing fields say of the body, if there are any. -/
structure Describes (fields : List Header) (body : Bytes) : Prop where
  lengths : ∀ v ∈ valuesOf "content-length" fields, lengthOf v = some body.length
  coding : valuesOf "transfer-encoding" fields ≠ [] →
    eqIgnoreAsciiCase (lastCoding (valuesOf "transfer-encoding" fields)) "chunked" = true ∧
      Chunked body

/-- Whichever of the framing fields one goes by, the body is what follows; without one nothing
does. -/
structure Framed (fields : List Header) (body : Bytes) : Prop extends Describes fields body where
  bare : valuesOf "content-length" fields = [] → valuesOf "transfer-encoding" fields = [] →
    body = []

/-- Cut at the first empty line, the request falls apart into its line and a line for each field,
from which name and value are read back, and its body, as the fields frame it. -/
structure Intact (r : Written) : Prop where
  lines : ∃ head, Delimited.cutAt [0x0d, 0x0a, 0x0d, 0x0a] (encodeRequest r) = some (head, r.body) ∧
    LineEnds.splitLines 0x0d 0x0a head = (requestLine r :: r.headers.map fieldLine).map asBytes
  fields : ∀ h ∈ r.headers, splitOnce ':' (fieldLine h) = some (h.1, " " ++ h.2)
  framed : Framed r.headers r.body

/-! ## Lines -/

/-- A text without a CR before an LF. -/
def Unbroken (s : List Char) : Prop := ¬['\r', '\n'] <:+: s

instance (s : List Char) : Decidable (Unbroken s) := inferInstanceAs (Decidable (¬_))

theorem unbroken_iff {s : String} : ¬[0x0d, 0x0a] <:+: asBytes s ↔ Unbroken s.toList := by
  refine not_congr ⟨?_, ?_⟩
  · rintro ⟨front, back, heq⟩
    refine ⟨lossyChars front, lossyChars back, ?_⟩
    have htext : lossyChars (asBytes s) = s.toList := by
      rw [asBytes_eq_flatMap, lossyChars_flatMap]
    have htail : lossyChars (0x0a :: back) = '\n' :: lossyChars back :=
      lossyChars_append_ascii (by decide) [] back
    have hall := lossyChars_append_ascii (show (0x0d : UInt8) < 0x80 by decide) front (0x0a :: back)
    rw [List.append_assoc] at heq
    rw [List.append_assoc, ← htext, ← heq]
    exact (hall.trans (congrArg (lossyChars front ++ '\r' :: ·) htail)).symm
  · rintro ⟨front, back, heq⟩
    refine ⟨front.flatMap String.utf8EncodeChar, back.flatMap String.utf8EncodeChar, ?_⟩
    rw [asBytes_eq_flatMap, ← heq, List.flatMap_append, List.flatMap_append]
    rfl

theorem unbroken_of_oneLine {s : String} (h : OneLine s) : Unbroken s.toList :=
  LineEnds.not_infix_of_not_mem h.1

theorem unbroken_append {c : Char} (hcr : '\r' ≠ c) (hlf : '\n' ≠ c) (s t : List Char) :
    Unbroken (s ++ c :: t) ↔ Unbroken s ∧ Unbroken t := by
  rw [Unbroken, LineEnds.infix_append_cons hcr hlf, not_or]
  rfl

theorem unbroken_fieldLine (h : Header) :
    Unbroken (fieldLine h).toList ↔ Unbroken h.1.toList ∧ Unbroken h.2.toList := by
  have hline : (fieldLine h).toList = h.1.toList ++ ':' :: ([] ++ ' ' :: h.2.toList) := by
    simp [fieldLine, ToString.toString]
  have hnil : Unbroken [] := by decide
  rw [hline, unbroken_append (by decide) (by decide), unbroken_append (by decide) (by decide),
    and_iff_right hnil]

theorem unbroken_requestLine {r : Written} (htarget : OneLine r.target) :
    Unbroken (requestLine r).toList ↔ Unbroken r.method.toList := by
  have hline : (requestLine r).toList =
      r.method.toList ++ ' ' :: (r.target.toList ++ ' ' :: "HTTP/1.1".toList) := by
    simp [requestLine, ToString.toString]
  have hversion : Unbroken "HTTP/1.1".toList := by decide
  rw [hline, unbroken_append (by decide) (by decide), unbroken_append (by decide) (by decide),
    and_iff_left ⟨unbroken_of_oneLine htarget, hversion⟩]

theorem encodeRequest_eq (r : Written) : encodeRequest r =
    LineEnds.joinLines 0x0d 0x0a ((requestLine r :: r.headers.map fieldLine).map asBytes) ++
      [0x0d, 0x0a] ++ r.body := by
  have hversion : asBytes " HTTP/1.1\r\n" = asBytes " HTTP/1.1" ++ [0x0d, 0x0a] := by decide
  have hspace : asBytes " " = [0x20] := by decide
  have hrequest : requestLine r = r.method ++ " " ++ r.target ++ " HTTP/1.1" := rfl
  have hfield (h : Header) :
      asBytes (fieldLine h) = asBytes h.1 ++ asBytes ": " ++ asBytes h.2 := by
    rw [← asBytes_append, ← asBytes_append]
    rfl
  rw [encodeRequest, hversion, LineEnds.joinLines, List.map_cons, List.map_map, List.flatMap_cons,
    List.flatMap_map, hrequest, asBytes_append, asBytes_append, asBytes_append, hspace]
  simp only [Function.comp_apply, hfield, List.append_assoc]

/-- The lines are the request's own exactly if no text in them holds a line end. -/
theorem lines_iff {r : Written} (htarget : OneLine r.target) :
    (∃ head, Delimited.cutAt [0x0d, 0x0a, 0x0d, 0x0a] (encodeRequest r) = some (head, r.body) ∧
      LineEnds.splitLines 0x0d 0x0a head =
        (requestLine r :: r.headers.map fieldLine).map asBytes) ↔
      Unbroken r.method.toList ∧ ∀ h ∈ r.headers, Unbroken h.1.toList ∧ Unbroken h.2.toList := by
  have hnil : [] ∉ (requestLine r :: r.headers.map fieldLine).map asBytes := by
    intro hmem
    obtain ⟨t, ht, heq⟩ := List.mem_map.mp hmem
    obtain rfl := asBytes_eq_nil.mp heq
    rcases List.mem_cons.mp ht with hline | hline
    · simpa [requestLine, ToString.toString] using congrArg String.toList hline
    · obtain ⟨h, -, hline⟩ := List.mem_map.mp hline
      simpa [fieldLine, ToString.toString] using congrArg String.toList hline
  rw [encodeRequest_eq, LineEnds.block_iff (by decide) hnil (List.cons_ne_nil _ _), List.map_cons,
    List.forall_mem_cons, unbroken_iff, unbroken_requestLine htarget, List.forall_mem_map,
    List.forall_mem_map]
  simp only [unbroken_iff, unbroken_fieldLine]

theorem splitOnce_fieldLine (h : Header) :
    splitOnce ':' (fieldLine h) = some (h.1, " " ++ h.2) ↔ ':' ∉ h.1.toList := by
  have hline : (fieldLine h).toList = h.1.toList ++ ':' :: (" " ++ h.2).toList := by
    simp [fieldLine, ToString.toString]
  rw [splitOnce_eq_some, and_iff_right hline]

/-! ## Bodies -/

theorem not_chunked_nil : ¬Chunked [] := by
  intro h
  generalize hbytes : ([] : Bytes) = bytes at h
  cases h <;> simp at hbytes

theorem trim_of_forall {s : String} (h : ∀ c ∈ s.toList, isWhitespace c = false) : trim s = s := by
  have hself {l : List Char} (hl : ∀ c ∈ l, isWhitespace c = false) :
      l.dropWhile isWhitespace = l :=
    List.dropWhile_eq_self_iff.mpr fun hlen => by simp [hl _ (List.getElem_mem hlen)]
  have hreverse : ∀ c ∈ s.toList.reverse, isWhitespace c = false := fun c hc =>
    h c (List.mem_reverse.mp hc)
  rw [trim, hself h, hself hreverse, List.reverse_reverse, String.ofList_toList]

theorem lengthOf_toString (n : Nat) : lengthOf (toString n) = some n := by
  have hdigits : allDigits n.repr = true := all_asBytes_repr n
  have htrim : trim n.repr = n.repr := by
    refine trim_of_forall fun c hc => ?_
    have hbounds := isDigit_bounds (allDigits_iff.mp hdigits c hc)
    simp [isWhitespace]
    omega
  have hrepr : toString n = n.repr := rfl
  rw [hrepr, lengthOf, htrim, if_neg (not_or.mpr ⟨repr_ne_empty n, not_not_intro hdigits⟩),
    Nat.repr, String.toList_ofList, Nat.ofDigitChars_ten_toDigits]

theorem valuesOf_eq_nil_iff {name : String} {fields : List Header} : valuesOf name fields = [] ↔
    (fields.any fun h => eqIgnoreAsciiCase h.1 name) = false := by
  simp [valuesOf]

theorem valuesOf_unless {name other : String} (h : eqIgnoreAsciiCase other name = false) (b : Bool)
    (v : String) : valuesOf name (if b then [] else [(other, v)]) = [] := by
  cases b <;> simp [valuesOf, h]

/-- Of the fields that frame the body, a length may be added. -/
theorem valuesOf_buildHeaders (u : Url) (caller : List Header) (n : Nat) :
    valuesOf "content-length" (buildHeaders u caller n) =
      (if 0 < n ∧ valuesOf "content-length" caller = [] ∧
        valuesOf "transfer-encoding" caller = [] then [toString n] else []) ++
        valuesOf "content-length" caller ∧
    valuesOf "transfer-encoding" (buildHeaders u caller n) =
      valuesOf "transfer-encoding" caller := by
  have hnames : ∀ name ∈ ["Host", "User-Agent", "Accept", "Connection"],
      eqIgnoreAsciiCase name "content-length" = false ∧
        eqIgnoreAsciiCase name "transfer-encoding" = false := by decide +kernel
  have hgiven (name other : String) (h : toAsciiLowercase name = toAsciiLowercase other) :
      (caller.any fun h => eqIgnoreAsciiCase h.1 name) = false ↔ valuesOf other caller = [] := by
    rw [valuesOf_eq_nil_iff]
    simp only [eqIgnoreAsciiCase, h]
  have hself : eqIgnoreAsciiCase "Content-Length" "content-length" = true ∧
      eqIgnoreAsciiCase "Content-Length" "transfer-encoding" = false := by decide +kernel
  have hlength := hgiven "Content-Length" "content-length" (by decide)
  have hcoding := hgiven "Transfer-Encoding" "transfer-encoding" (by decide)
  have hunless (name : String) (hname : name ∈ ["Host", "User-Agent", "Accept", "Connection"])
      (b : Bool) (v : String) := And.intro (valuesOf_unless (hnames name hname).1 b v)
        (valuesOf_unless (hnames name hname).2 b v)
  rw [buildHeaders]
  simp only [Http.valuesOf_append, hunless, List.mem_cons, true_or, or_true, List.nil_append,
    Bool.and_eq_true, decide_eq_true_eq, Bool.not_eq_true', hlength, hcoding, and_assoc]
  constructor
  · split
    · simp [valuesOf, hself.1]
    · rfl
  · split
    · simp [valuesOf, hself.2]
    · rfl

/-- The fields that are added frame the body exactly if the caller's do not say otherwise. -/
theorem framed_buildHeaders {u : Url} {caller : List Header} {body : Bytes} :
    Framed (buildHeaders u caller body.length) body ↔ Describes caller body := by
  obtain ⟨hlength, hcoding⟩ := valuesOf_buildHeaders u caller body.length
  constructor
  · rintro ⟨⟨hlengths, hchunked⟩, -⟩
    refine ⟨fun v hv => hlengths v ?_, by rwa [hcoding] at hchunked⟩
    rw [hlength]
    exact List.mem_append_right _ hv
  · rintro ⟨hlengths, hchunked⟩
    refine ⟨⟨fun v hv => ?_, by rwa [hcoding]⟩, fun hnone hplain => ?_⟩
    · rw [hlength] at hv
      rcases List.mem_append.mp hv with hv | hv
      · split at hv
        · rw [List.mem_singleton.mp hv]
          exact lengthOf_toString _
        · cases hv
      · exact hlengths v hv
    · rw [hlength] at hnone
      rw [hcoding] at hplain
      obtain ⟨hadded, hgiven⟩ := List.append_eq_nil_iff.mp hnone
      by_contra hbody
      rw [if_pos ⟨List.length_pos_iff.mpr hbody, hgiven, hplain⟩] at hadded
      cases hadded

/-- No field says that there is a body. -/
structure Bodiless (fields : List Header) : Prop where
  lengths : ∀ v ∈ valuesOf "content-length" fields, lengthOf v = some 0
  coding : valuesOf "transfer-encoding" fields = []

theorem describes_nil {fields : List Header} : Describes fields [] ↔ Bodiless fields := by
  constructor
  · rintro ⟨hlengths, hcoding⟩
    refine ⟨hlengths, ?_⟩
    by_contra hne
    exact not_chunked_nil (hcoding hne).2
  · rintro ⟨hlengths, hcoding⟩
    exact ⟨hlengths, fun hne => absurd hcoding hne⟩

/-! ## One request -/

/-- The texts of the caller hold no line end, the names no colon, and no redirect has dropped a body
that the caller's fields describe. -/
structure Sound (req : Request) (s : Hop) : Prop where
  method : Unbroken s.method.toList
  headers : ∀ h ∈ req.headers, Unbroken h.1.toList ∧ Unbroken h.2.toList ∧ ':' ∉ h.1.toList
  body : s.body = req.body ∨ Bodiless req.headers

theorem oneLine_hostHeader {u : Url} (hurl : VisibleUrl u) : OneLine (hostHeader u) := by
  unfold hostHeader
  extract_lets default
  split
  · exact Http.oneLine_of_visible hurl.host
  · exact Http.oneLine_of_visible (Http.visible_append (Http.visible_append hurl.host (by decide))
      (Http.visible_nat _))

theorem mem_unless {b : Bool} {f h : Header} (hh : h ∈ if b then [] else [f]) : h = f := by
  cases b with
  | true => cases hh
  | false => exact List.mem_singleton.mp hh

/-- The fields that are added end no line. -/
theorem added_buildHeaders {u : Url} {caller : List Header} {n : Nat} (hurl : VisibleUrl u)
    {h : Header} (hh : h ∈ buildHeaders u caller n) : h ∈ caller ∨
      Unbroken h.1.toList ∧ Unbroken h.2.toList ∧ ':' ∉ h.1.toList := by
  have hnames : ∀ name ∈ ["Host", "User-Agent", "Accept", "Connection", "Content-Length"],
      Unbroken name.toList ∧ ':' ∉ name.toList := by decide
  have hadded {name value : String} (hname : name ∈
      ["Host", "User-Agent", "Accept", "Connection", "Content-Length"]) (hvalue : OneLine value) :
      Unbroken name.toList ∧ Unbroken value.toList ∧ ':' ∉ name.toList :=
    ⟨(hnames name hname).1, unbroken_of_oneLine hvalue, (hnames name hname).2⟩
  simp only [buildHeaders, List.mem_append] at hh
  rcases hh with ((((hh | hh) | hh) | hh) | hh) | hh
  · right
    rw [mem_unless hh]
    exact hadded (by simp) (oneLine_hostHeader hurl)
  · right
    rw [mem_unless hh]
    exact hadded (by decide) (by decide)
  · right
    rw [mem_unless hh]
    exact hadded (by decide) (by decide)
  · right
    rw [mem_unless hh]
    exact hadded (by decide) (by decide)
  · right
    split at hh
    · rw [List.mem_singleton.mp hh]
      exact hadded (by simp) (Http.oneLine_of_visible (Http.visible_nat _))
    · cases hh
  · exact .inl hh

/-- What holds of the hops of an exchange. -/
structure Reached (req : Request) (s : Hop) : Prop where
  parsed : ∃ text, Url.parse text = .ok s.url
  body : s.body = req.body ∨ s.body = []

theorem intact_iff {req : Request} {s : Hop} (hs : Reached req s)
    (hscheme : s.url.scheme ≠ "file") (hgiven : Describes req.headers req.body) :
    Intact (s.written req) ↔ Sound req s := by
  obtain ⟨text, hparse⟩ := hs.parsed
  have hurl := Http.visible_of_parse hparse hscheme
  have htarget : OneLine (s.written req).target := by
    dsimp only [Hop.written]
    split
    · decide
    · exact Http.oneLine_of_visible hurl.path
  have hbody : Framed (s.written req).headers (s.written req).body ↔
      s.body = req.body ∨ Bodiless req.headers := by
    refine framed_buildHeaders.trans ?_
    constructor
    · intro hdescribes
      rcases hs.body with hsame | hempty
      · exact .inl hsame
      · rw [hempty] at hdescribes
        exact .inr (describes_nil.mp hdescribes)
    · rintro (hsame | hbodiless)
      · rwa [hsame]
      · rcases hs.body with hsame | hempty
        · rwa [hsame]
        · rw [hempty]
          exact describes_nil.mpr hbodiless
  have hauto : ∀ h ∈ (s.written req).headers, h ∈ req.headers ∨
      Unbroken h.1.toList ∧ Unbroken h.2.toList ∧ ':' ∉ h.1.toList :=
    fun h hh => added_buildHeaders hurl hh
  have hgivenFields : ∀ h ∈ req.headers, h ∈ (s.written req).headers := fun h hh =>
    List.mem_append_right _ hh
  constructor
  · rintro ⟨hlines, hfields, hframed⟩
    obtain ⟨hmethod, hheaders⟩ := (lines_iff htarget).mp hlines
    refine ⟨hmethod, fun h hh => ?_, hbody.mp hframed⟩
    obtain ⟨hname, hvalue⟩ := hheaders h (hgivenFields h hh)
    exact ⟨hname, hvalue, (splitOnce_fieldLine h).mp (hfields h (hgivenFields h hh))⟩
  · rintro ⟨hmethod, hheaders, hdropped⟩
    have hall (h : Header) (hh : h ∈ (s.written req).headers) :=
      (hauto h hh).elim (hheaders h) fun h => h
    refine ⟨(lines_iff htarget).mpr ⟨hmethod, fun h hh => ?_⟩, fun h hh => ?_, hbody.mpr hdropped⟩
    · exact ⟨(hall h hh).1, (hall h hh).2.1⟩
    · exact (splitOnce_fieldLine h).mpr (hall h hh).2.2

/-! ## The run -/

theorem not_file_of_refuses {w : World} {sent : List Written} {url : Url}
    (h : w.refuses sent url = none) : url.scheme ≠ "file" := by
  unfold World.refuses at h
  split at h
  · cases h
  · split at h
    · rename_i hscheme
      rw [Bool.or_eq_true, decide_eq_true_eq, decide_eq_true_eq] at hscheme
      rcases hscheme with heq | heq <;> rw [heq] <;> decide
    · cases h

theorem reached_start {req : Request} {s : Hop} (h : start req = .ok s) :
    Reached req s ∧ s.sent = [] := by
  unfold start at h
  split at h
  · cases h
  · rename_i url hparse
    cases h
    exact ⟨⟨⟨req.url, hparse⟩, .inl rfl⟩, rfl⟩

variable {w : World} {req : Request}

theorem reached_next {s s' : Hop} (hs : Reached req s) (h : s.turn w req = .next s') :
    Reached req s' := by
  obtain ⟨resp, location, url, hf, rfl⟩ := Hop.turn_next_iff.mp h
  refine ⟨Url.exists_parse_of_resolve hf.resolved, ?_⟩
  dsimp only [Hop.redirected]
  split
  · exact .inr rfl
  · exact hs.body

/-- What a run from a hop writes are the requests of the hops that are not refused. -/
theorem mem_run (s : Hop) (r : Written) :
    r ∈ (Loop.run (Hop.turn w req) Hop.budget Hop.turn_lowers s).1 ↔ r ∈ s.sent ∨
      ∃ t ∈ Loop.visited (Hop.turn w req) Hop.budget s,
        w.refuses t.sent t.url = none ∧ r = t.written req := by
  induction hb : s.budget using Nat.strongRecOn generalizing s with
  | ind n ih =>
    cases hs : s.turn w req with
    | done a =>
      rw [Loop.run_done hs, Loop.visited_done hs]
      rcases Hop.turn_done hs with ⟨hrefuse, ha⟩ | ⟨hreach, ha⟩
      · simp [ha, hrefuse]
      · simp [ha, hreach]
    | next s' =>
      have hlow := Hop.turn_lowers s s' hs
      have hrest := ih _ (hb ▸ hlow) s' rfl
      obtain ⟨resp, location, url, hf, rfl⟩ := Hop.turn_next_iff.mp hs
      rw [Loop.run_next hs, Loop.visited_next Hop.turn_lowers hs, hrest]
      simp [Hop.redirected, hf.reached, or_assoc]

/-- Along every chain of redirects, the requests that are written are read back as they were meant
exactly if at each hop no text of the caller holds a line end, and no redirect has dropped a body
that the caller's fields describe. -/
theorem requests_intact_iff (w : World) (req : Request) (hgiven : Describes req.headers req.body) :
    (∀ r ∈ (exchange w req).1, Intact r) ↔
      ∀ s ∈ hops w req, w.refuses s.sent s.url = none → Sound req s := by
  unfold exchange hops
  cases hs : start req with
  | error e => simp
  | ok s =>
    obtain ⟨hstart, hsent⟩ := reached_start hs
    have hreached : ∀ t ∈ Loop.visited (Hop.turn w req) Hop.budget s, Reached req t :=
      Loop.visited_rule Hop.turn_lowers hstart fun t _ ht t' h => reached_next ht h
    have hintact : ∀ t ∈ Loop.visited (Hop.turn w req) Hop.budget s,
        w.refuses t.sent t.url = none → (Intact (t.written req) ↔ Sound req t) :=
      fun t ht hreach => intact_iff (hreached t ht) (not_file_of_refuses hreach) hgiven
    simp only [mem_run, hsent, List.not_mem_nil, false_or]
    constructor
    · intro h t ht hreach
      exact (hintact t ht hreach).mp (h _ ⟨t, ht, hreach, rfl⟩)
    · rintro h _ ⟨t, ht, hreach, rfl⟩
      exact (hintact t ht hreach).mpr (h t ht hreach)

/-- The first request is answered with another location to get. -/
def toDone : World where
  connect _ _ := none
  serve sent := .ok
    (if sent.length = 1 then ⟨303, "See Other", [("Location", "/done")], []⟩
    else ⟨200, "OK", [], []⟩)
  codecs := .unavailable

def posted : Request where
  method := "post"
  url := "http://h.test/"
  body := [0x61, 0x62]
  followRedirects := true

/-- The caller says how long the body is. -/
def measured : Request := { posted with headers := [("Content-Length", "2")] }

def smuggling : Request := { posted with headers := [("X-A", "1\r\nX-B: 2")] }

theorem requests_intact_posted : Describes posted.headers posted.body ∧
    ∀ r ∈ (exchange toDone posted).1, Intact r := by
  have hgiven : Describes posted.headers posted.body := ⟨nofun, fun h => absurd rfl h⟩
  refine ⟨hgiven, (requests_intact_iff toDone posted hgiven).mpr fun s hs _ => ?_⟩
  have hmethods : ∀ s ∈ hops toDone posted, s.method ∈ ["POST", "GET"] := by decide +kernel
  have hunbroken : ∀ method ∈ ["POST", "GET"], Unbroken method.toList := by decide +kernel
  exact ⟨hunbroken _ (hmethods s hs), nofun, .inr ⟨nofun, rfl⟩⟩

/-- A value with a line end goes out as it is, and so does the length of a body that was dropped. -/
theorem not_intact :
    (Describes smuggling.headers smuggling.body ∧
      ∃ r ∈ (exchange toDone smuggling).1, ¬Intact r) ∧
    Describes measured.headers measured.body ∧
      ∃ r ∈ (exchange toDone measured).1, ¬Intact r := by
  refine ⟨⟨⟨nofun, fun h => absurd rfl h⟩, ?_⟩, ⟨fun v hv => ?_, fun h => absurd rfl h⟩, ?_⟩
  · refine ⟨Hop.written smuggling ⟨⟨"http", none, "h.test", 80, "/"⟩, "POST", [0x61, 0x62], 0, []⟩,
      by decide +kernel, fun h => ?_⟩
    have hlines := ((lines_iff (by decide)).mp h.lines).2 ("X-A", "1\r\nX-B: 2") (by decide +kernel)
    exact absurd hlines.2 (by decide +kernel)
  · rw [List.mem_singleton.mp hv]
    decide +kernel
  · refine ⟨Hop.written measured ⟨⟨"http", none, "h.test", 80, "/done"⟩, "GET", [], 1, []⟩,
      by decide +kernel, fun h => ?_⟩
    have hlength := h.framed.lengths "2" (by decide +kernel)
    exact absurd hlength (by decide +kernel)

end Rsurl.Aio
