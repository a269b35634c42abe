import Rsurl.Http.Request
import Rsurl.Library.LineEnds
import Rsurl.Net.Connect
import Rsurl.Url.Path

/-!
# Request heads

What a request puts on an HTTP/1.1 connection: a line for itself, a line for each field, an empty
line and its body. No text of the caller ends a line.
-/

namespace Rsurl.Http

open Library Text Hpack
open Http2 (Url effectiveMethod effectiveBasicAuth base64Encode)

/-! ## Writing -/

/-- What a request is written to. -/
structure Sink where
  written : Bytes := []
  /-- The bytes still taken before a write fails, `none` where none does. -/
  room : Option Nat := none
  flushes : Bool := true
  fault : IoErrorKind × String := (.brokenPipe, "broken pipe")
  deriving DecidableEq, Repr

def Sink.failure (w : Sink) : Error := .io w.fault.1 w.fault.2

/-- All of the bytes, or those there is room for. -/
def Sink.writeAll (w : Sink) (bytes : Bytes) : Outcome Sink Unit :=
  match w.room with
  | none => .ok () { w with written := w.written ++ bytes }
  | some n =>
    if bytes.length ≤ n then
      .ok () { w with written := w.written ++ bytes, room := some (n - bytes.length) }
    else .error w.failure { w with written := w.written ++ bytes.take n, room := some 0 }

def Sink.flush (w : Sink) : Outcome Sink Unit := if w.flushes then .ok () w else .error w.failure w

/-- `write_request`, on a connection that may fail. -/
def writeRequestTo (w : Sink) (req : Request) (absoluteForm : Bool) : Outcome Sink Unit :=
  (Outcome.ofExcept (validateMethod (effectiveMethod req.toRequest)) w).andThen fun _ w =>
    (Outcome.ofExcept (req.headers.forM validateHeader) w).andThen fun _ w =>
      (w.writeAll (asBytes (requestHead req absoluteForm))).andThen fun _ w =>
        (if req.body.isEmpty then .ok () w else w.writeAll req.body).andThen fun _ w => w.flush

/-- All of `bytes` behind what was there, or after a fault a part of them. -/
def Wrote (w : Sink) (bytes : Bytes) (r : Outcome Sink Unit) : Prop :=
  r.Post (fun _ w' => w'.written = w.written ++ bytes ∧ w'.fault = w.fault) fun e w' =>
    e = w.failure ∧ ∃ part, part <+: bytes ∧ w'.written = w.written ++ part

theorem wrote_writeAll (w : Sink) (bytes : Bytes) : Wrote w bytes (w.writeAll bytes) := by
  unfold Sink.writeAll
  split
  · exact ⟨rfl, rfl⟩
  · split
    · exact ⟨rfl, rfl⟩
    · exact ⟨rfl, _, List.take_prefix _ _, rfl⟩

theorem wrote_flush (w : Sink) : Wrote w [] w.flush := by
  unfold Sink.flush
  split
  · exact ⟨(List.append_nil _).symm, rfl⟩
  · exact ⟨rfl, [], List.prefix_rfl, (List.append_nil _).symm⟩

theorem Wrote.andThen {w : Sink} {first second : Bytes} {r : Outcome Sink Unit}
    {f : Unit → Sink → Outcome Sink Unit} (hr : Wrote w first r)
    (hf : ∀ w', Wrote w' second (f () w')) : Wrote w (first ++ second) (r.andThen f) := by
  cases r with
  | error e w' =>
    obtain ⟨he, part, hpart, hwritten⟩ := hr
    exact ⟨he, part, hpart.trans (List.prefix_append _ _), hwritten⟩
  | ok u w' =>
    obtain ⟨hwritten, hfault⟩ := hr
    refine (hf w').imp (fun _ w'' h => ⟨?_, h.2.trans hfault⟩) fun e w'' h => ⟨?_, ?_⟩
    · rw [h.1, hwritten, List.append_assoc]
    · rw [h.1, Sink.failure, hfault]
      rfl
    · obtain ⟨part, hpart, hwritten'⟩ := h.2
      exact ⟨first ++ part, (List.prefix_append_right_inj first).mpr hpart, by
        rw [hwritten', hwritten, List.append_assoc]⟩

/-- A request that is refused writes nothing; any other writes its head and its body. -/
theorem writeRequestTo_spec (w : Sink) (req : Request) (absoluteForm : Bool) :
    match writeRequest req absoluteForm with
    | .error e => writeRequestTo w req absoluteForm = .error e w
    | .ok bytes => Wrote w bytes (writeRequestTo w req absoluteForm) := by
  unfold writeRequest writeRequestTo
  cases validateMethod (effectiveMethod req.toRequest) with
  | error e => rfl
  | ok u =>
    dsimp only
    cases req.headers.forM validateHeader with
    | error e => rfl
    | ok u =>
      have hbody (w : Sink) : Wrote w req.body
          (if req.body.isEmpty then .ok () w else w.writeAll req.body) := by
        split
        · rename_i hempty
          rw [List.isEmpty_iff.mp hempty]
          exact ⟨(List.append_nil _).symm, rfl⟩
        · exact wrote_writeAll w _
      have hrest (w : Sink) := (hbody w).andThen (f := fun _ w => w.flush) wrote_flush
      rw [List.append_nil] at hrest
      exact (wrote_writeAll w _).andThen hrest

/-! ## Lines -/

/-- A text that ends no line. -/
def OneLine (s : String) : Prop := '\r' ∉ s.toList ∧ '\n' ∉ s.toList

instance (s : String) : Decidable (OneLine s) := inferInstanceAs (Decidable (_ ∧ _))

theorem oneLine_append {s t : String} (hs : OneLine s) (ht : OneLine t) : OneLine (s ++ t) := by
  unfold OneLine
  rw [String.toList_append]
  exact ⟨fun h => (List.mem_append.mp h).elim hs.1 ht.1,
    fun h => (List.mem_append.mp h).elim hs.2 ht.2⟩

/-- Neither a space nor anything below it. -/
def Visible (s : String) : Prop := ∀ c ∈ s.toList, 0x20 < c.toNat

instance (s : String) : Decidable (Visible s) := 
  decidable_of_iff (s.toList.all fun c => decide (0x20 < c.toNat)) (by simp [Visible])

theorem oneLine_of_visible {s : String} (h : Visible s) : OneLine s :=
  ⟨fun hc => absurd (h _ hc) (by decide), fun hc => absurd (h _ hc) (by decide)⟩

theorem visible_append {s t : String} (hs : Visible s) (ht : Visible t) : Visible (s ++ t) := by
  intro c hc
  rw [String.toList_append] at hc
  exact (List.mem_append.mp hc).elim (hs c) (ht c)

theorem lt_of_ne_space {c : Char} (hlow : 0x20 ≤ c.toNat) (hspace : c ≠ ' ') : 0x20 < c.toNat :=
  lt_of_le_of_ne hlow fun heq => hspace (Char.toNat_inj.mp heq.symm)

theorem visible_of_hasForbidden {s : String} (h : Url.hasForbidden s.toList = false) :
    Visible s := by
  intro c hc
  have hnot := List.any_eq_false.mp h c hc
  simp only [Bool.or_eq_true, decide_eq_true_eq, not_or, Nat.not_lt] at hnot
  exact lt_of_ne_space hnot.1.1 hnot.2

theorem visible_nat (n : Nat) : Visible (toString n) := by
  intro c hc
  have hdigits : c ∈ Nat.toDigits 10 n := by
    simpa [ToString.toString, Nat.repr_eq_ofList_toDigits] using hc
  have hbounds := isDigit_bounds (Nat.isDigit_of_mem_toDigits (by decide) (by decide) hdigits)
  omega

theorem oneLine_base64Encode (input : Bytes) : OneLine (base64Encode input) := by
  have hvisible := Net.visible_base64Encode input
  constructor
  · intro h
    exact absurd (hvisible _ ((mem_asBytes (by decide)).mpr h)) (by decide)
  · intro h
    exact absurd (hvisible _ ((mem_asBytes (by decide)).mpr h)) (by decide)

theorem visible_method {method : String} (h : validateMethod method = .ok ()) :
    Visible method := by
  unfold validateMethod at h
  split at h
  · cases h
  · rename_i hok
    rw [Bool.or_eq_true, not_or, Bool.not_eq_true, Bool.not_eq_true, List.any_eq_false] at hok
    intro c hc
    have hnot := hok.2 c hc
    simp only [Bool.or_eq_true, decide_eq_true_eq, beq_iff_eq, not_or, Nat.not_lt] at hnot
    exact lt_of_ne_space hnot.1.1 hnot.2

/-- A field whose name and value end no line. -/
def OneLineField (h : Header) : Prop := OneLine h.1 ∧ OneLine h.2

theorem oneLine_of_validateHeader {h : Header} (hvalid : validateHeader h = .ok ()) :
    OneLineField h := by
  unfold validateHeader at hvalid
  split at hvalid
  · cases hvalid
  · rename_i hname
    split at hvalid
    · cases hvalid
    · rename_i hvalue
      simp only [Bool.not_eq_true', Bool.not_eq_false, isValidHeaderName, Bool.and_eq_true,
        List.all_eq_true] at hname
      simp only [Bool.not_eq_true, headerValueHasForbidden, List.any_eq_false, Bool.or_eq_true,
        not_or] at hvalue
      refine ⟨⟨fun hc => ?_, fun hc => ?_⟩, ⟨fun hc => ?_, fun hc => ?_⟩⟩
      · exact absurd (hname.2 _ hc) (by decide)
      · exact absurd (hname.2 _ hc) (by decide)
      · exact absurd (hvalue _ hc).1.1 (by decide)
      · exact absurd (hvalue _ hc).1.2 (by decide)

theorem mem_of_unbracket {host inner : List Char} (h : unbracket host = some inner) {c : Char}
    (hc : c ∈ inner) : c ∈ host := by
  unfold unbracket at h
  split at h
  · obtain ⟨-, h⟩ := Option.ite_none_right_eq_some.mp h
    cases h
    exact List.mem_cons_of_mem _ (List.mem_of_mem_dropLast hc)
  · cases h

/-- The brackets are all that a host gains. -/
theorem forall_uriHost {p : Char → Prop} (hopen : p '[') (hclose : p ']') {host : String}
    (h : ∀ c ∈ host.toList, p c) : ∀ c ∈ (uriHost host).toList, p c := by
  unfold uriHost
  extract_lets bare
  have hbare : ∀ c ∈ bare, p c := by
    intro c hc
    unfold bare at hc
    cases hinner : unbracket host.toList with
    | none =>
      rw [hinner] at hc
      exact h c hc
    | some inner =>
      rw [hinner] at hc
      exact h c (mem_of_unbracket hinner hc)
  split
  · intro c hc
    rw [String.toList_ofList] at hc
    rcases List.mem_append.mp hc with hc | hc
    · rcases List.mem_cons.mp hc with rfl | hc
      · exact hopen
      · exact hbare c ((List.takeWhile_prefix _).subset hc)
    · rw [List.mem_singleton.mp hc]
      exact hclose
  · exact h

theorem visible_uriHost {host : String} (h : Visible host) : Visible (uriHost host) :=
  forall_uriHost (by decide) (by decide) h

theorem visible_hostHeaderValue {url : Url} (h : Visible url.host) :
    Visible (hostHeaderValue url) := by
  unfold hostHeaderValue
  extract_lets host
  split
  · exact visible_uriHost h
  · exact visible_append (visible_append (visible_uriHost h) (by decide)) (visible_nat _)

/-- What is written of a URL holds no space and no control character. -/
structure VisibleUrl (url : Url) : Prop where
  scheme : Visible url.scheme
  host : Visible url.host
  path : Visible url.path

theorem visible_of_defaultPort {scheme : String} {dflt : Nat}
    (h : Url.defaultPort scheme = some dflt) : Visible scheme := by
  unfold Url.defaultPort at h
  split at h <;> first | decide | cases h

theorem visible_of_parse {s : String} {url : Url} (h : Url.parse s = .ok url)
    (hfile : url.scheme ≠ "file") : VisibleUrl url := by
  obtain ⟨dflt, bracketed, hu⟩ := Url.parse_ok h hfile
  have hchecked := hu.checked
  simp only [Url.authorityOk, Bool.and_eq_true, Bool.not_eq_true'] at hchecked
  exact ⟨visible_of_defaultPort hu.known, visible_of_hasForbidden hchecked.1.1.2,
    visible_of_hasForbidden hu.clean⟩

/-! ## The head -/

def requestLine (req : Request) (absoluteForm : Bool) : String :=
  s!"{effectiveMethod req.toRequest} {requestTarget req absoluteForm} HTTP/1.1"

def fieldLine (h : Header) : String := s!"{h.1}: {h.2}"

/-- The request line and a line for each field. -/
def headLines (req : Request) (absoluteForm : Bool) : List String :=
  requestLine req absoluteForm :: (requestFields req absoluteForm).map fieldLine

theorem asBytes_join (lines : List String) :
    asBytes (String.join lines) = lines.flatMap asBytes := by
  rw [asBytes_eq_flatMap, String.toList_join, List.flatMap_assoc]
  exact List.flatMap_congr fun s _ => (asBytes_eq_flatMap s).symm

theorem asBytes_requestHead (req : Request) (absoluteForm : Bool) :
    asBytes (requestHead req absoluteForm) =
      LineEnds.joinLines 0x0d 0x0a ((headLines req absoluteForm).map asBytes) ++ [0x0d, 0x0a] := by
  have hend : asBytes "\r\n" = [0x0d, 0x0a] := by decide
  have hline (h : Header) : s!"{h.1}: {h.2}\r\n" = fieldLine h ++ "\r\n" := rfl
  have hversion : " HTTP/1.1\r\n" = " HTTP/1.1" ++ "\r\n" := rfl
  have hrequest : s!"{effectiveMethod req.toRequest} {requestTarget req absoluteForm}" ++
      " HTTP/1.1\r\n" = requestLine req absoluteForm ++ "\r\n" := by
    rw [hversion, ← String.append_assoc]
    rfl
  have hhead : requestHead req absoluteForm = requestLine req absoluteForm ++ "\r\n" ++
      String.join ((requestFields req absoluteForm).map fun h => fieldLine h ++ "\r\n") ++
        "\r\n" := by
    rw [← hrequest]
    rfl
  rw [hhead, asBytes_append, asBytes_append, asBytes_append, asBytes_join, hend]
  simp only [headLines, LineEnds.joinLines, List.map_cons, List.map_map, List.flatMap_cons,
    List.flatMap_map, asBytes_append, hend, Function.comp_apply]

theorem oneLine_fieldLine {h : Header} (hline : OneLineField h) : OneLine (fieldLine h) :=
  oneLine_append (oneLine_append hline.1 (by decide)) hline.2

/-! ## Fields -/

/-- The fields written in front of the caller's. -/
def fieldsBefore (req : Request) (absoluteForm : Bool) : List Header :=
  (if req.strictHeaders && given req "host" then [] else [("Host", hostHeaderValue req.url)]) ++
  (match absoluteForm, req.proxy, req.proxyAuth with
    | true, true, some (user, pass) =>
      [("Proxy-Authorization", s!"Basic {basicToken user pass}")]
    | _, _, _ => [])

/-- The fields written behind the caller's. -/
def fieldsAfter (req : Request) : List Header :=
  automaticFields req ++
  (if !given req "content-length" && !given req "transfer-encoding" &&
      (!req.body.isEmpty || methodTakesBody (effectiveMethod req.toRequest)) then
    [("Content-Length", toString req.body.length)]
  else [])

theorem requestFields_eq (req : Request) (absoluteForm : Bool) :
    requestFields req absoluteForm =
      fieldsBefore req absoluteForm ++ req.headers ++ fieldsAfter req := by
  unfold requestFields fieldsBefore fieldsAfter
  cases absoluteForm <;> cases req.proxy <;> rcases req.proxyAuth with _ | ⟨user, pass⟩ <;> simp

def automaticNames : List String :=
  ["Host", "Proxy-Authorization", "Authorization", "User-Agent", "Accept", "Accept-Encoding",
    "Content-Length"]

/-- A field that is none of the caller's, and ends no line. -/
def Automatic (f : Header) : Prop := f.1 ∈ automaticNames ∧ OneLine f.2

theorem automatic_mk {name value : String} (hname : name ∈ automaticNames) (hvalue : OneLine value) :
    Automatic (name, value) := ⟨hname, hvalue⟩

theorem oneLine_of_automatic {f : Header} (h : Automatic f) : OneLineField f := by
  have hnames : ∀ name ∈ automaticNames, OneLine name := by decide
  exact ⟨hnames f.1 h.1, h.2⟩

theorem automatic_append {first second : List Header} (hfirst : ∀ f ∈ first, Automatic f)
    (hsecond : ∀ f ∈ second, Automatic f) : ∀ f ∈ first ++ second, Automatic f := by
  intro f hf
  exact (List.mem_append.mp hf).elim (hfirst f) (hsecond f)

theorem automatic_unless {name value : String} (hname : name ∈ automaticNames)
    (hvalue : OneLine value) (b : Bool) :
    ∀ f ∈ (if b then [] else [(name, value)]), Automatic f := by
  intro f hf
  split at hf
  · cases hf
  · rw [List.mem_singleton.mp hf]
    exact automatic_mk hname hvalue

theorem automatic_fieldsBefore {req : Request} (hurl : VisibleUrl req.url) (absoluteForm : Bool) :
    ∀ f ∈ fieldsBefore req absoluteForm, Automatic f := by
  apply automatic_append
  · exact automatic_unless (by decide) (oneLine_of_visible (visible_hostHeaderValue hurl.host)) _
  · intro f hf
    split at hf
    · rw [List.mem_singleton.mp hf]
      exact automatic_mk (by decide) (oneLine_append (by decide) (oneLine_base64Encode _))
    · cases hf

theorem oneLine_effectiveBasicAuth {req : Http2.Request} {creds : String}
    (h : effectiveBasicAuth req = some creds) : OneLine creds := by
  unfold effectiveBasicAuth at h
  extract_lets encode at h
  have hencode (pair : String × String) (hpair : encode pair = some creds) : OneLine creds := by
    obtain ⟨-, heq⟩ := Option.ite_none_left_eq_some.mp hpair
    cases heq
    exact oneLine_base64Encode _
  split at h
  · exact hencode _ h
  · obtain ⟨pair, -, hpair⟩ := Option.bind_eq_some_iff.mp h
    exact hencode pair hpair

theorem automatic_fieldsAfter (req : Request) : ∀ f ∈ fieldsAfter req, Automatic f := by
  apply automatic_append
  · intro f hf
    unfold automaticFields at hf
    split at hf
    · cases hf
    · revert f
      refine automatic_append (automatic_append (automatic_append ?_ ?_) ?_) ?_
      · intro f hf
        split at hf
        · cases hf
        · split at hf
          · rename_i creds hcreds
            rw [List.mem_singleton.mp hf]
            exact automatic_mk (by decide) (oneLine_append (by decide) (oneLine_effectiveBasicAuth hcreds))
          · cases hf
      · exact automatic_unless (by decide) (by decide) _
      · exact automatic_unless (by decide) (by decide) _
      · exact automatic_unless (by decide) (by decide) _
  · intro f hf
    split at hf
    · rw [List.mem_singleton.mp hf]
      exact automatic_mk (by decide) (oneLine_of_visible (visible_nat _))
    · cases hf

/-! ## What is on the connection -/

/-- A request that the writer accepts. -/
structure Writable (req : Request) : Prop where
  method : validateMethod (effectiveMethod req.toRequest) = .ok ()
  headers : ∀ h ∈ req.headers, OneLineField h

theorem writable_of_ok {req : Request} {absoluteForm : Bool} {out : Bytes}
    (h : writeRequest req absoluteForm = .ok out) :
    Writable req ∧ out = asBytes (requestHead req absoluteForm) ++ req.body := by
  have hheaders := validateHeader_of_ok h
  unfold writeRequest at h
  split at h
  · cases h
  · rename_i hmethod
    split at h
    · cases h
    · cases h
      exact ⟨⟨hmethod, fun f hf => oneLine_of_validateHeader (hheaders f hf)⟩, rfl⟩

theorem visible_requestTarget {req : Request} (hurl : VisibleUrl req.url) (absoluteForm : Bool) :
    Visible (requestTarget req absoluteForm) := by
  unfold requestTarget
  split
  · exact visible_append (visible_append (visible_append hurl.scheme (by decide))
      (visible_hostHeaderValue hurl.host)) hurl.path
  · exact hurl.path

/-- The request line has three words. -/
theorem splitOn_requestLine {req : Request} (hreq : Writable req) (hurl : VisibleUrl req.url)
    (absoluteForm : Bool) :
    (requestLine req absoluteForm).toList.splitOn ' ' =
      [(effectiveMethod req.toRequest).toList, (requestTarget req absoluteForm).toList,
        "HTTP/1.1".toList] := by
  have hspace {s : String} (hs : Visible s) : ' ' ∉ s.toList := fun hmem =>
    absurd (hs _ hmem) (by decide)
  have hwords : (requestLine req absoluteForm).toList = List.intercalate [' ']
      [(effectiveMethod req.toRequest).toList, (requestTarget req absoluteForm).toList,
        "HTTP/1.1".toList] := by
    simp [requestLine, ToString.toString, List.intercalate]
  rw [hwords]
  refine List.splitOn_intercalate ' ' ?_ (List.cons_ne_nil _ _)
  intro word hword
  simp only [List.mem_cons, List.not_mem_nil, or_false] at hword
  rcases hword with rfl | rfl | rfl
  · exact hspace (visible_method hreq.method)
  · exact hspace (visible_requestTarget hurl absoluteForm)
  · decide

theorem oneLine_headLines {req : Request} (hreq : Writable req) (hurl : VisibleUrl req.url)
    (absoluteForm : Bool) : ∀ line ∈ headLines req absoluteForm, OneLine line := by
  intro line hline
  rcases List.mem_cons.mp hline with rfl | hline
  · exact oneLine_append (oneLine_append (oneLine_append
      (oneLine_of_visible (visible_method hreq.method)) (by decide))
      (oneLine_of_visible (visible_requestTarget hurl absoluteForm))) (by decide)
  · obtain ⟨f, hf, rfl⟩ := List.mem_map.mp hline
    rw [requestFields_eq] at hf
    rcases List.mem_append.mp hf with hf | hf
    · rcases List.mem_append.mp hf with hf | hf
      · exact oneLine_fieldLine (oneLine_of_automatic (automatic_fieldsBefore hurl absoluteForm f hf))
      · exact oneLine_fieldLine (hreq.headers f hf)
    · exact oneLine_fieldLine (oneLine_of_automatic (automatic_fieldsAfter req f hf))

/-- The head that is cut off at the first empty line falls apart into the lines it was made of. -/
theorem head_of_lines {lines : List String} (hne : lines ≠ []) (hone : ∀ line ∈ lines, OneLine line)
    (hsome : ∀ line ∈ lines, line ≠ "") (body : Bytes) :
    ∃ head, Delimited.cutAt [0x0d, 0x0a, 0x0d, 0x0a]
        (LineEnds.joinLines 0x0d 0x0a (lines.map asBytes) ++ [0x0d, 0x0a] ++ body) =
          some (head, body) ∧
      LineEnds.splitLines 0x0d 0x0a head = lines.map asBytes := by
  have hne' : lines.map asBytes ≠ [] := by simpa using hne
  have hends : (0x0d : UInt8) ≠ 0x0a := by decide
  have hplain : ∀ line ∈ lines.map asBytes, ¬[0x0d, 0x0a] <:+: line := by
    intro line hline
    obtain ⟨t, ht, rfl⟩ := List.mem_map.mp hline
    exact LineEnds.not_infix_of_not_mem fun hmem =>
      (hone t ht).1 ((mem_asBytes (by decide)).mp hmem)
  have hnil : [] ∉ lines.map asBytes := by
    intro hmem
    obtain ⟨t, ht, heq⟩ := List.mem_map.mp hmem
    exact hsome t ht (asBytes_injective heq)
  exact ⟨_, LineEnds.cutAt_joinLines hends hplain hnil hne' body,
    LineEnds.splitLines_intercalate hends hplain hne'⟩

theorem ne_empty_of_headLines {req : Request} {absoluteForm : Bool} :
    ∀ line ∈ headLines req absoluteForm, line ≠ "" := by
  intro line hline heq
  have hempty : line.toList = [] := by rw [heq]; rfl
  rcases List.mem_cons.mp hline with rfl | hline
  · simp [requestLine, ToString.toString] at hempty
  · obtain ⟨f, -, rfl⟩ := List.mem_map.mp hline
    simp [fieldLine, ToString.toString] at hempty

/-- Up to the first empty line is the head: the request line, the caller's fields as they were
given, and around them fields of the client's own; behind it is the body. -/
def Unforged (req : Request) (absoluteForm : Bool) (out : Bytes) : Prop :=
  ∃ head before after,
    Delimited.cutAt [0x0d, 0x0a, 0x0d, 0x0a] out = some (head, req.body) ∧
    LineEnds.splitLines 0x0d 0x0a head = (requestLine req absoluteForm ::
      (before ++ req.headers ++ after).map fieldLine).map asBytes ∧
    (requestLine req absoluteForm).toList.splitOn ' ' =
      [(effectiveMethod req.toRequest).toList, (requestTarget req absoluteForm).toList,
        "HTTP/1.1".toList] ∧
    (∀ f ∈ before ++ after, Automatic f) ∧ ∀ f ∈ req.headers, OneLineField f

theorem unforged_of_writable {req : Request} (hreq : Writable req) (hurl : VisibleUrl req.url)
    (absoluteForm : Bool) :
    Unforged req absoluteForm (asBytes (requestHead req absoluteForm) ++ req.body) := by
  obtain ⟨head, hcut, hlines⟩ := @head_of_lines (headLines req absoluteForm)
    (List.cons_ne_nil _ _) (oneLine_headLines hreq hurl absoluteForm) ne_empty_of_headLines req.body
  rw [← asBytes_requestHead] at hcut
  refine ⟨head, fieldsBefore req absoluteForm, fieldsAfter req, hcut, ?_,
    splitOn_requestLine hreq hurl absoluteForm,
    automatic_append (automatic_fieldsBefore hurl absoluteForm) (automatic_fieldsAfter req),
    hreq.headers⟩
  rw [hlines, headLines, requestFields_eq]

/-- What is written for a URL that was parsed, other than that of a file. A failure that is not the
connection's own comes before anything is written. -/
theorem writeRequestTo_unforged {s : String} {req : Request} (hparse : Url.parse s = .ok req.url)
    (hfile : req.url.scheme ≠ "file") (absoluteForm : Bool) (w : Sink) :
    (writeRequestTo w req absoluteForm).Post
      (fun _ w' => ∃ out, w'.written = w.written ++ out ∧ Unforged req absoluteForm out)
      (fun e w' => w' = w ∨ e = w.failure ∧ ∃ out part, w'.written = w.written ++ part ∧
        part <+: out ∧ Unforged req absoluteForm out) := by
  have hspec := writeRequestTo_spec w req absoluteForm
  cases hout : writeRequest req absoluteForm with
  | error e =>
    rw [hout] at hspec
    dsimp only at hspec
    rw [hspec]
    exact .inl rfl
  | ok out =>
    rw [hout] at hspec
    obtain ⟨hreq, rfl⟩ := writable_of_ok hout
    have hunforged := unforged_of_writable hreq (visible_of_parse hparse hfile) absoluteForm
    refine Outcome.Post.imp hspec (fun _ w' h => ⟨_, h.1, hunforged⟩) fun e w' h => .inr ?_
    obtain ⟨he, part, hpart, hwritten⟩ := h
    exact ⟨he, _, part, hwritten, hpart, hunforged⟩

theorem writeRequestTo_unforged_get :
    ∃ out, Unforged { method := "GET", url := ⟨"http", none, "h", 80, "/"⟩, headers := [("X", "1")] }
      false out := by
  have hparse : Url.parse "http://h/" = .ok ⟨"http", none, "h", 80, "/"⟩ := by decide
  have h := @writeRequestTo_unforged "http://h/"
    { method := "GET", url := ⟨"http", none, "h", 80, "/"⟩, headers := [("X", "1")] } hparse
    (by decide) false {}
  have hok : (writeRequestTo {}
      { method := "GET", url := ⟨"http", none, "h", 80, "/"⟩, headers := [("X", "1")] }
      false).result = .ok () := by decide
  rw [Outcome.eq_ok_of_result hok] at h
  obtain ⟨out, -, hout⟩ := h
  exact ⟨out, hout⟩

/-- The path of a file may hold line ends, and a connection may fail half-way. -/
theorem forged_by_path_or_cut_short :
    (∃ req w', Url.parse "file:///a\r\nX: b" = .ok req.url ∧
      writeRequestTo {} req false = .ok () w' ∧ ¬Unforged req false w'.written) ∧
    ∃ req w e w', Url.parse "http://h/" = .ok req.url ∧
      writeRequestTo w req false = .error e w' ∧ w'.written ≠ w.written := by
  constructor
  · have hok : (writeRequestTo {} { method := "GET", url := ⟨"file", none, "", 0, "/a\r\nX: b"⟩ }
        false).result = .ok () := by decide +kernel
    refine ⟨{ method := "GET", url := ⟨"file", none, "", 0, "/a\r\nX: b"⟩ }, _, by decide,
      Outcome.eq_ok_of_result hok, ?_⟩
    rintro ⟨head, before, after, hcut, hlines, -⟩
    have hhead := congrArg (Option.map fun c => (LineEnds.splitLines 0x0d 0x0a c.1).head?) hcut
    rw [Option.map_some, hlines, List.map_cons, List.head?_cons] at hhead
    exact absurd hhead (by decide +kernel)
  · exact ⟨{ method := "GET", url := ⟨"http", none, "h", 80, "/"⟩ }, { room := some 5 },
      .io .brokenPipe "broken pipe", { written := [0x47, 0x45, 0x54, 0x20, 0x2f], room := some 0 },
      by decide, by decide, by decide⟩

end Rsurl.Http
