import Rsurl.Http2.Response
import Rsurl.Split

/-!
# What is left of the content codings

The layers that were peeled off, and those that are left, say the same of the body as the list that
came with it: what is behind a layer that cannot be read is not touched.
-/

namespace Rsurl.Http2

open Text Hpack

/-! ## Lists of codings -/

/-- The codings that a value lists, the one applied first in front. -/
def codings (value : String) : List String := ((split ',' value).map trim).filter (· ≠ "")

/-- The values of the `Content-Encoding` lines. -/
def codingLines (headers : List Header) : List String :=
  (headers.filter fun h => eqIgnoreAsciiCase h.1 "content-encoding").map Prod.snd

theorem trim_blank (s : List Char) : trim (String.ofList (' ' :: s)) = trim (String.ofList s) := by
  have hblank : isWhitespace ' ' = true := by decide
  rw [trim, trim, String.toList_ofList, String.toList_ofList, List.dropWhile_cons_of_pos hblank]

theorem toList_trim (s : String) :
    (trim s).toList = (s.toList.dropWhile isWhitespace).rdropWhile isWhitespace := by
  rw [trim, String.toList_ofList, List.rdropWhile]

theorem mem_of_mem_trim {s : String} {c : Char} (h : c ∈ (trim s).toList) : c ∈ s.toList := by
  rw [toList_trim] at h
  exact (List.dropWhile_sublist _).subset ((List.rdropWhile_prefix _ _).subset h)

theorem trim_trim (s : String) : trim (trim s) = trim s := by
  apply String.toList_injective
  rw [toList_trim, toList_trim]
  -- what is dropped at the end leaves the front as it was
  have hhead : ((s.toList.dropWhile isWhitespace).rdropWhile isWhitespace).dropWhile isWhitespace =
      (s.toList.dropWhile isWhitespace).rdropWhile isWhitespace := by
    obtain ⟨tail, htail⟩ := List.rdropWhile_prefix isWhitespace (s.toList.dropWhile isWhitespace)
    have hstart := List.dropWhile_idempotent isWhitespace s.toList
    cases hfront : (s.toList.dropWhile isWhitespace).rdropWhile isWhitespace with
    | nil => rfl
    | cons c front =>
      rw [← htail, hfront, List.cons_append, List.dropWhile_eq_self_iff] at hstart
      exact List.dropWhile_cons_of_neg (hstart (Nat.zero_lt_succ _))
  rw [hhead, List.rdropWhile_idempotent]

/-- Joined lines list what the lines list. -/
theorem codings_intercalate (values : List String) :
    codings (", ".intercalate values) = values.flatMap codings := by
  induction values with
  | nil => decide
  | cons first rest ih =>
    cases rest with
    | nil => rw [String.intercalate_singleton, List.flatMap_singleton]
    | cons second rest =>
      rw [String.intercalate_cons_cons, List.flatMap_cons, ← ih]
      generalize ", ".intercalate (second :: rest) = tail
      have hjoined : (first ++ ", " ++ tail).toList =
          first.toList ++ ',' :: ' ' :: tail.toList := by
        simp
      have htail : ((' ' :: tail.toList).splitOn ',').map (fun p => trim (String.ofList p)) =
          (tail.toList.splitOn ',').map fun p => trim (String.ofList p) := by
        rw [List.splitOn_cons_eq_if_modifyHead, if_neg (by decide)]
        obtain ⟨piece, more, heq⟩ :=
          List.exists_cons_of_ne_nil (List.splitOn_ne_nil ',' tail.toList)
        rw [heq, List.modifyHead_cons, List.map_cons, List.map_cons, trim_blank]
      unfold codings split
      rw [hjoined, List.splitOn_append_cons_self, List.map_map, List.map_map, List.map_map,
        List.map_append, List.filter_append]
      exact congrArg _ (congrArg _ htail)

theorem codings_of_mem {value token : String} (h : token ∈ codings value) :
    codings token = [token] := by
  obtain ⟨hmem, hne⟩ := List.mem_filter.mp h
  obtain ⟨piece, hpiece, rfl⟩ := List.mem_map.mp hmem
  obtain ⟨chars, hchars, rfl⟩ := List.mem_map.mp hpiece
  have hcomma : ',' ∉ (trim (String.ofList chars)).toList := by
    intro hc
    have hin := mem_of_mem_trim hc
    rw [String.toList_ofList] at hin
    exact not_mem_of_mem_splitOn hchars hin
  rw [codings, split, List.splitOn_eq_singleton hcomma, List.map_singleton, String.ofList_toList,
    List.map_singleton, trim_trim]
  exact List.filter_eq_self.mpr (by simpa using hne)

/-- Codings that were listed are listed again when they are joined. -/
theorem codings_joined (value : String) {tokens : List String}
    (h : ∀ t ∈ tokens, t ∈ codings value) :
    codings (", ".intercalate tokens) = tokens := by
  rw [codings_intercalate]
  induction tokens with
  | nil => rfl
  | cons token tokens ih =>
    obtain ⟨htoken, htokens⟩ := List.forall_mem_cons.mp h
    rw [List.flatMap_cons, codings_of_mem htoken, ih htokens]
    rfl

theorem codings_contentEncoding {headers : List Header} {value : String}
    (h : contentEncoding headers = some value) :
    codings value = (codingLines headers).flatMap codings := by
  unfold contentEncoding at h
  dsimp only at h
  split at h
  · cases h
  · cases h
    exact codings_intercalate _

/-! ## What a body says -/

/-- What is behind each coding, as far as anything is. -/
structure Meaning where
  known : Layer → Bytes → Option Bytes
  unknown : String → Bytes → Option Bytes

def Meaning.behind (m : Meaning) (token : String) (body : Bytes) : Option Bytes :=
  match Layer.parse token with
  | some .identity => some body
  | some layer => m.known layer body
  | none => m.unknown token body

/-- The plaintext behind codings, of which the last was applied last. -/
def Meaning.plaintext (m : Meaning) (tokens : List String) (body : Bytes) : Option Bytes :=
  tokens.foldr (fun token body => body.bind (m.behind token)) (some body)

theorem Meaning.plaintext_append (m : Meaning) (inner outer : List String) {body out : Bytes}
    (h : m.plaintext outer body = some out) :
    m.plaintext (inner ++ outer) body = m.plaintext inner out := by
  unfold Meaning.plaintext at h ⊢
  rw [List.foldr_append, h]

/-! ## What is decoded -/

/-- A body, and what a layer's decoder made of it. -/
structure Step where
  layer : Layer
  src : Bytes
  out : Bytes
  deriving DecidableEq, Repr

/-- What is decoded on the way, outermost first. -/
def Codecs.steps (codecs : Codecs) : List String → Bytes → Nat → List Step
  | [], _, _ => []
  | token :: inner, current, budget =>
    match Layer.parse token with
    | none => []
    | some .identity => codecs.steps inner current budget
    | some layer => match codecs.decodeLayer layer current budget with
      | .error _ => []
      | .ok out => ⟨layer, current, out⟩ :: codecs.steps inner out (budget - out.length)

/-- Each step takes up what the one before it made. -/
def Relayed : Bytes → List Step → Bytes → Prop
  | src, [], out => src = out
  | src, s :: rest, out => s.src = src ∧ Relayed s.out rest out

/-- The layer of a coding that changes the body. -/
def working (token : String) : Option Layer := (Layer.parse token).filter (· ≠ .identity)

/-- The layers that are gone, outermost first, and what is left. -/
structure Peeled (codecs : Codecs) (outer : List String) (current : Bytes) (budget : Nat)
    (d : Decoded) (gone left : List String) : Prop where
  split : outer = gone ++ left
  remaining : d.remaining = ", ".intercalate left.reverse
  known : ∀ t ∈ gone, Layer.parse t ≠ none
  stopped : ∀ t, left.head? = some t → Layer.parse t = none
  layers : (codecs.steps outer current budget).map Step.layer = gone.filterMap working
  carries : Relayed current (codecs.steps outer current budget) d.body

section

variable {codecs : Codecs} {token : String} {inner outer : List String} {current : Bytes}
  {peeled : Bool} {budget : Nat} {layer : Layer} {d : Decoded}

theorem peel_layer (h : Layer.parse token = some layer) (hne : layer ≠ .identity) :
    codecs.peel (token :: inner) current peeled budget =
      match codecs.decodeLayer layer current budget with
      | .error e => .error e
      | .ok out => codecs.peel inner out true (budget - out.length) := by
  rw [Codecs.peel, h]
  cases layer <;> first | rfl | exact (hne rfl).elim

theorem steps_layer (h : Layer.parse token = some layer) (hne : layer ≠ .identity) :
    codecs.steps (token :: inner) current budget =
      match codecs.decodeLayer layer current budget with
      | .error _ => []
      | .ok out => ⟨layer, current, out⟩ :: codecs.steps inner out (budget - out.length) := by
  rw [Codecs.steps, h]
  cases layer <;> first | rfl | exact (hne rfl).elim

theorem behind_layer (m : Meaning) (h : Layer.parse token = some layer) (hne : layer ≠ .identity)
    (body : Bytes) : m.behind token body = m.known layer body := by
  rw [Meaning.behind, h]
  cases layer <;> first | rfl | exact (hne rfl).elim

theorem peel_peeled (h : codecs.peel outer current peeled budget = .ok d) :
    ∃ gone left, Peeled codecs outer current budget d gone left := by
  induction outer generalizing current peeled budget with
  | nil =>
    cases h
    exact ⟨[], [], rfl, rfl, by simp, by simp, rfl, rfl⟩
  | cons token inner ih =>
    cases hparse : Layer.parse token with
    | none =>
      rw [Codecs.peel, hparse] at h
      cases h
      refine ⟨[], token :: inner, rfl, rfl, by simp, ?_, ?_, ?_⟩
      · rintro t heq
        cases heq
        exact hparse
      · rw [Codecs.steps, hparse]
        rfl
      · rw [Codecs.steps, hparse]
        rfl
    | some layer =>
      have hknown : ∀ gone, (∀ t ∈ gone, Layer.parse t ≠ none) →
          ∀ t ∈ token :: gone, Layer.parse t ≠ none := by
        intro gone hgone
        refine List.forall_mem_cons.mpr ⟨?_, hgone⟩
        rw [hparse]
        exact Option.some_ne_none layer
      by_cases hid : layer = .identity
      · subst hid
        rw [Codecs.peel, hparse] at h
        obtain ⟨gone, left, hpeeled⟩ := ih h
        have hsteps : codecs.steps (token :: inner) current budget =
            codecs.steps inner current budget := by
          rw [Codecs.steps, hparse]
        have hworking : working token = none := by
          rw [working, hparse]
          rfl
        refine ⟨token :: gone, left, ?_, hpeeled.remaining, hknown gone hpeeled.known,
          hpeeled.stopped, ?_, ?_⟩
        · rw [hpeeled.split, List.cons_append]
        · rw [hsteps, hpeeled.layers, List.filterMap_cons, hworking]
        · rw [hsteps]
          exact hpeeled.carries
      · rw [peel_layer hparse hid] at h
        cases hdecode : codecs.decodeLayer layer current budget with
        | error e =>
          rw [hdecode] at h
          cases h
        | ok out =>
          rw [hdecode] at h
          obtain ⟨gone, left, hpeeled⟩ := ih h
          have hsteps : codecs.steps (token :: inner) current budget =
              ⟨layer, current, out⟩ :: codecs.steps inner out (budget - out.length) := by
            rw [steps_layer hparse hid, hdecode]
          have hworking : working token = some layer := by
            rw [working, hparse]
            exact Option.filter_some_pos (by simpa using hid)
          refine ⟨token :: gone, left, ?_, hpeeled.remaining, hknown gone hpeeled.known,
            hpeeled.stopped, ?_, ?_⟩
          · rw [hpeeled.split, List.cons_append]
          · rw [hsteps, List.map_cons, hpeeled.layers, List.filterMap_cons, hworking]
          · rw [hsteps]
            exact ⟨rfl, hpeeled.carries⟩

/-- Behind the layers that are gone is the body that is left. -/
theorem Peeled.plaintext {gone left : List String} {m : Meaning}
    (h : Peeled codecs outer current budget d gone left)
    (hm : ∀ s ∈ codecs.steps outer current budget, m.known s.layer s.src = some s.out) :
    m.plaintext gone.reverse current = some d.body := by
  have hwalk : ∀ (gone : List String) (steps : List Step) (current : Bytes),
      (∀ t ∈ gone, Layer.parse t ≠ none) → steps.map Step.layer = gone.filterMap working →
      Relayed current steps d.body → (∀ s ∈ steps, m.known s.layer s.src = some s.out) →
      m.plaintext gone.reverse current = some d.body := by
    intro gone
    induction gone with
    | nil =>
      intro steps current hknown hlayers hcarries hm
      rw [List.filterMap_nil, List.map_eq_nil_iff] at hlayers
      subst hlayers
      exact congrArg some hcarries
    | cons token gone ih =>
      intro steps current hknown hlayers hcarries hm
      obtain ⟨htoken, hgone⟩ := List.forall_mem_cons.mp hknown
      obtain ⟨layer, hparse⟩ := Option.ne_none_iff_exists'.mp htoken
      rw [List.reverse_cons]
      by_cases hid : layer = .identity
      · have hworking : working token = none := by
          rw [working, hparse, hid]
          rfl
        rw [List.filterMap_cons, hworking] at hlayers
        have hbehind : m.plaintext [token] current = some current := by
          rw [Meaning.plaintext, List.foldr_cons, List.foldr_nil, Option.bind_some, Meaning.behind,
            hparse, hid]
        rw [m.plaintext_append _ _ hbehind]
        exact ih steps current hgone hlayers hcarries hm
      · have hworking : working token = some layer := by
          rw [working, hparse]
          exact Option.filter_some_pos (by simpa using hid)
        rw [List.filterMap_cons, hworking] at hlayers
        cases steps with
        | nil => cases hlayers
        | cons s steps =>
          obtain ⟨hlayer, hlayers⟩ := List.cons.inj hlayers
          obtain ⟨hsrc, hcarries⟩ := hcarries
          obtain ⟨hs, hsteps⟩ := List.forall_mem_cons.mp hm
          have hbehind : m.plaintext [token] current = some s.out := by
            rw [Meaning.plaintext, List.foldr_cons, List.foldr_nil, Option.bind_some,
              behind_layer m hparse hid, ← hlayer, ← hsrc, hs]
          rw [m.plaintext_append _ _ hbehind]
          exact ih steps s.out hgone hlayers hcarries hsteps
  exact hwalk gone _ current h.known h.layers h.carries hm

/-- The decoders keep to the budget that they are given. -/
def Codecs.Limited (codecs : Codecs) : Prop :=
  ∀ alg src budget out, codecs.decodeWith alg src budget = .ok out → out.length ≤ budget

theorem decodeLayer_limited (hlim : codecs.Limited) (hne : layer ≠ .identity) {src out : Bytes}
    (h : codecs.decodeLayer layer src budget = .ok out) : out.length ≤ budget := by
  have hnamed : ∀ name alg, codecs.decodeNamed name alg src budget = .ok out →
      out.length ≤ budget := by
    intro name alg hdecode
    unfold Codecs.decodeNamed at hdecode
    split at hdecode
    · cases hdecode
      exact hlim alg src budget out ‹_›
    · cases hdecode
  cases layer with
  | gzip => exact hnamed _ _ h
  | zstd => exact hnamed _ _ h
  | brotli => exact hnamed _ _ h
  | compress => exact hnamed _ _ h
  | identity => exact (hne rfl).elim
  | deflate =>
    rw [Codecs.decodeLayer, Codecs.inflateZlib] at h
    split at h
    · cases h
      exact hlim _ src budget out ‹_›
    · split at h
      · cases h
        exact hlim _ src budget out ‹_›
      · cases h

/-- The layers share one budget. -/
theorem sum_steps_le (hlim : codecs.Limited) (outer : List String) (current : Bytes)
    (budget : Nat) :
    ((codecs.steps outer current budget).map fun s => s.out.length).sum ≤ budget := by
  induction outer generalizing current budget with
  | nil => exact Nat.zero_le _
  | cons token inner ih =>
    cases hparse : Layer.parse token with
    | none =>
      rw [Codecs.steps, hparse]
      exact Nat.zero_le _
    | some layer =>
      by_cases hid : layer = .identity
      · rw [Codecs.steps, hparse, hid]
        exact ih current budget
      · rw [steps_layer hparse hid]
        cases hdecode : codecs.decodeLayer layer current budget with
        | error e => exact Nat.zero_le _
        | ok out =>
          have hout := decodeLayer_limited hlim hid hdecode
          have hrest := ih out (budget - out.length)
          rw [List.map_cons, List.sum_cons]
          dsimp only
          omega

end

/-! ## Responses -/

theorem decodeBody_peeled {codecs : Codecs} {body : Bytes} {value : String} {d : Decoded}
    (h : codecs.decodeBody body value = .ok d) :
    ∃ gone left, Peeled codecs (codings value).reverse body maxBodyBytes d gone left := by
  unfold Codecs.decodeBody at h
  dsimp only at h
  rw [← codings] at h
  split at h
  · rename_i hempty
    cases h
    rw [List.isEmpty_iff.mp hempty]
    exact ⟨[], [], rfl, rfl, by simp, by simp, rfl, rfl⟩
  · split at h
    · cases h
    · exact peel_peeled h

theorem codingLines_stripAfterDecode (headers : List Header) :
    codingLines (stripAfterDecode headers) = [] := by
  rw [codingLines, stripAfterDecode, List.filter_filter, List.map_eq_nil_iff,
    List.filter_eq_nil_iff]
  intro h _
  simp only [Bool.and_eq_true, Bool.not_eq_true']
  rintro ⟨hcoding, hnot, -⟩
  rw [hcoding] at hnot
  cases hnot

theorem headersAfterDecode_exact (headers : List Header) (d : Decoded) :
    codingLines (headersAfterDecode headers d) =
        (if d.remaining = "" then [] else [d.remaining]) ∧
      ∀ h ∈ headersAfterDecode headers d, eqIgnoreAsciiCase h.1 "content-length" = false := by
  have hlength : ∀ h ∈ stripAfterDecode headers,
      eqIgnoreAsciiCase h.1 "content-length" = false := by
    intro h hmem
    have hkept := (List.mem_filter.mp hmem).2
    rw [Bool.and_eq_true, Bool.not_eq_true', Bool.not_eq_true'] at hkept
    exact hkept.2
  unfold headersAfterDecode
  split
  · exact ⟨codingLines_stripAfterDecode headers, hlength⟩
  · constructor
    · have hname : eqIgnoreAsciiCase "Content-Encoding" "content-encoding" = true := by decide
      have hadded : [("Content-Encoding", d.remaining)].filter
          (fun h : Header => eqIgnoreAsciiCase h.1 "content-encoding") =
          [("Content-Encoding", d.remaining)] := List.filter_cons_of_pos hname
      have hstrip := codingLines_stripAfterDecode headers
      unfold codingLines at hstrip ⊢
      rw [List.filter_append, List.map_append, hstrip, hadded]
      rfl
    · intro h hmem
      rcases List.mem_append.mp hmem with hmem | hmem
      · exact hlength h hmem
      · have hother : eqIgnoreAsciiCase "Content-Encoding" "content-length" = false := by decide
        rw [List.mem_singleton.mp hmem]
        exact hother

/-- The codings that are left say of the body that is left what the lines said of the body that
came, for whatever plaintext the decoders find behind the layers that they take off; these are the
outermost ones, each taken off once and in order, down to one that is not known. The headers then
list what is left, and all that was decoded fits the one limit. -/
theorem content_encoding_exact {codecs : Codecs} (hlim : codecs.Limited) {headers : List Header}
    {value : String} (hvalue : contentEncoding headers = some value) {body : Bytes} {d : Decoded}
    (h : codecs.decodeBody body value = .ok d) :
    let listed := (codingLines headers).flatMap codings
    let left := codings d.remaining
    let steps := codecs.steps listed.reverse body maxBodyBytes
    (∀ m : Meaning, (∀ s ∈ steps, m.known s.layer s.src = some s.out) →
      m.plaintext left d.body = m.plaintext listed body) ∧
    (∃ gone, listed = left ++ gone ∧ (∀ t ∈ gone, Layer.parse t ≠ none) ∧
      (∀ t, left.getLast? = some t → Layer.parse t = none) ∧
      steps.map Step.layer = gone.reverse.filterMap working ∧ Relayed body steps d.body) ∧
    codingLines (headersAfterDecode headers d) =
      (if d.remaining = "" then [] else [d.remaining]) ∧
    (∀ h ∈ headersAfterDecode headers d, eqIgnoreAsciiCase h.1 "content-length" = false) ∧
    (steps.map fun s => s.out.length).sum ≤ maxBodyBytes := by
  intro listed left steps
  obtain ⟨gone, kept, hpeeled⟩ := decodeBody_peeled h
  have hlisted : codings value = listed := codings_contentEncoding hvalue
  have hsplit : codings value = kept.reverse ++ gone.reverse := by
    rw [← List.reverse_append, ← hpeeled.split, List.reverse_reverse]
  have hleft : left = kept.reverse := by
    refine (congrArg codings hpeeled.remaining).trans (codings_joined value ?_)
    intro t ht
    rw [hsplit]
    exact List.mem_append_left _ ht
  rw [hlisted] at hpeeled hsplit
  have hheaders := headersAfterDecode_exact headers d
  refine ⟨?_, ⟨gone.reverse, ?_, ?_, ?_, ?_, ?_⟩, hheaders.1, hheaders.2, ?_⟩
  · intro m hm
    rw [hsplit, hleft, m.plaintext_append _ _ (hpeeled.plaintext hm)]
  · rw [hsplit, hleft]
  · intro t ht
    exact hpeeled.known t (List.mem_reverse.mp ht)
  · intro t ht
    rw [hleft, List.getLast?_reverse] at ht
    exact hpeeled.stopped t ht
  · rw [List.reverse_reverse]
    exact hpeeled.layers
  · exact hpeeled.carries
  · exact sum_steps_le hlim _ body maxBodyBytes

/-- `hi` in gzip, as one stored block. -/
def gzippedHi : Bytes :=
  [0x1f, 0x8b, 0x08, 0x00, 0x00, 0x00, 0x00, 0x00, 0x00, 0x03, 0x01, 0x02, 0x00, 0xfd, 0xff, 0x68,
    0x69, 0xac, 0x2a, 0x93, 0xd8, 0x02, 0x00, 0x00, 0x00]

/-- What the decoders make of it, and of nothing else. -/
def hiCodecs : Codecs where
  decodeWith alg src budget :=
    if alg = .gzip ∧ src = gzippedHi ∧ 2 ≤ budget then .ok [0x68, 0x69] else .error "corrupt input"

/-- One layer comes off, and the headers name the one that is not known. -/
theorem content_encoding_exact_hi :
    codingLines (headersAfterDecode
      [("Content-Encoding", "snappy"), ("content-encoding", "identity,, GZIP"),
        ("Content-Length", "25")] ⟨[0x68, 0x69], true, "snappy"⟩) = ["snappy"] := by
  have hlim : hiCodecs.Limited := by
    intro alg src budget out h
    unfold hiCodecs at h
    dsimp only at h
    split at h
    · rename_i hbudget
      cases h
      exact hbudget.2.2
    · cases h
  have hvalue : contentEncoding
      [("Content-Encoding", "snappy"), ("content-encoding", "identity,, GZIP"),
        ("Content-Length", "25")] = some "snappy, identity,, GZIP" := by decide +kernel
  have hdecode : hiCodecs.decodeBody gzippedHi "snappy, identity,, GZIP" =
      .ok ⟨[0x68, 0x69], true, "snappy"⟩ := by decide +kernel
  exact (content_encoding_exact hlim hvalue hdecode).2.2.1

end Rsurl.Http2
