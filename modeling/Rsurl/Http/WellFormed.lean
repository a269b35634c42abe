import Rsurl.Http.Head
import Rsurl.Http.Versions

/-!
# Well-formed requests in HTTP/2 and HTTP/3

The writer of HTTP/1.1 checks the caller's fields before it writes a byte. Those of HTTP/2 and
HTTP/3 check nothing: what they put on the wire is well formed exactly if the fields they keep would
have passed that check, and none says how long the body is.
-/

namespace Rsurl.Http

open Text Hpack
open Http2 (base64Encode effectiveMethod effectiveBasicAuth userAgent)

/-! ## Field lists -/

def pseudoFields (pseudo : Http2.RequestPseudo) : List Header :=
  [(":method", pseudo.method), (":scheme", pseudo.scheme), (":authority", pseudo.authority),
    (":path", pseudo.path)]

/-- The list that HTTP/2 encodes. -/
def http2Fields (req : Http2.Request) : List Header :=
  pseudoFields (Http2.requestHeaderFields req).1 ++ (Http2.requestHeaderFields req).2

/-- The list that HTTP/3 encodes. -/
def http3Fields (req : Http2.Request) : List Header :=
  pseudoFields (Http3.requestHeaderFields req).1 ++ (Http3.requestHeaderFields req).2

theorem buildHeaderBlock_eq (encoder : Encoder) (req : Http2.Request) :
    Http2.buildHeaderBlock encoder req = encoder.encodeBlock (http2Fields req) := rfl

/-- A field of one connection, its name in lower case. -/
def ConnectionSpecific (f : Header) : Prop :=
  f.1 ∈ ["connection", "proxy-connection", "keep-alive", "transfer-encoding", "upgrade"] ∨
    f.1 = "te" ∧ eqIgnoreAsciiCase (trim f.2) "trailers" = false

/-- A regular field of a request. -/
structure RegularField (f : Header) : Prop where
  lowercase : toAsciiLowercase f.1 = f.1
  token : isValidHeaderName f.1 = true
  noColon : f.1.toList.head? ≠ some ':'
  value : headerValueHasForbidden f.2 = false
  endToEnd : ¬ConnectionSpecific f

/-- The fields of a request with a body of this length. -/
structure WellFormed (bodyLength : Nat) (fields : List Header) : Prop where
  shape : ∃ pseudo rest, fields = pseudoFields pseudo ++ rest ∧ (∀ f ∈ rest, RegularField f) ∧
    (valuesOf "content-length" rest = [] ∨
      valuesOf "content-length" rest = [toString bodyLength])

/-- What a version keeps of the caller's fields passes the check of HTTP/1.1, and it does not
announce a length. -/
structure Clean (keeps : Header → Bool) (req : Http2.Request) : Prop where
  valid : ∀ h ∈ req.headers, keeps h = true → validateHeader h = .ok ()
  length : valuesOf "content-length" (req.headers.filter keeps) = [] ∨
    req.body = [] ∧ valuesOf "content-length" (req.headers.filter keeps) = ["0"]

def http2Keeps (h : Header) : Bool :=
  !(Http2.isConnectionSpecificHeader h.1 || eqIgnoreAsciiCase h.1 "host")

def http3Keeps (h : Header) : Bool := !Http3.omitRequestField (toAsciiLowercase h.1) h.2

/-! ## Names and values -/

theorem isTokenChar_toLower (c : Char) : isTokenChar c.toLower = isTokenChar c := by
  by_cases hupper : c.isUpper = true
  · have halpha : c.isAlpha = true := by rw [Char.isAlpha, hupper, Bool.true_or]
    have hlower : c.toLower.isAlpha = true := (Char.isAlpha_toLower_eq_isAlpha c).trans halpha
    rw [isTokenChar, isTokenChar, Char.isAlphanum, Char.isAlphanum, halpha, hlower]
    rfl
  · rw [Char.toLower_eq_of_not_isUpper hupper]

theorem isValidHeaderName_lower (name : String) :
    isValidHeaderName (toAsciiLowercase name) = isValidHeaderName name := by
  have hempty : toAsciiLowercase name ≠ "" ↔ name ≠ "" := by
    rw [ne_eq, ne_eq, ← String.toList_eq_nil_iff, ← String.toList_eq_nil_iff,
      toList_toAsciiLowercase, List.map_eq_nil_iff]
  rw [Bool.eq_iff_iff, isValidHeaderName, isValidHeaderName, Bool.and_eq_true, Bool.and_eq_true,
    decide_eq_true_eq, decide_eq_true_eq, hempty, toList_toAsciiLowercase, List.all_map]
  simp only [Function.comp_def, isTokenChar_toLower]

theorem validateHeader_iff {h : Header} : validateHeader h = .ok () ↔
    isValidHeaderName h.1 = true ∧ headerValueHasForbidden h.2 = false := by
  unfold validateHeader
  split_ifs with hname hvalue <;> simp_all

theorem head_of_valid {name : String} (h : isValidHeaderName name = true) :
    name.toList.head? ≠ some ':' := by
  intro hhead
  rw [isValidHeaderName, Bool.and_eq_true, List.all_eq_true] at h
  exact absurd (h.2 ':' (List.mem_of_mem_head? hhead)) (by decide)

theorem regularField_lower {h : Header} (hend : ¬ConnectionSpecific (lower h)) :
    RegularField (lower h) ↔ validateHeader h = .ok () := by
  rw [validateHeader_iff]
  constructor
  · intro hregular
    exact ⟨(isValidHeaderName_lower h.1).symm.trans hregular.token, hregular.value⟩
  · rintro ⟨hname, hvalue⟩
    have htoken := (isValidHeaderName_lower h.1).trans hname
    exact ⟨toAsciiLowercase_idem h.1, htoken, head_of_valid htoken, hvalue, hend⟩

theorem forbidden_base64Encode (input : Bytes) :
    headerValueHasForbidden (base64Encode input) = false := by
  have hvisible := Net.visible_base64Encode input
  have hnot : ∀ c ∈ (base64Encode input).toList, ∀ d : Char, d.toNat < 0x80 →
      Net.isVisible (UInt8.ofNat d.toNat) = false → c ≠ d := by
    rintro c hc _ hascii hinvisible rfl
    rw [hvisible _ ((mem_asBytes hascii).mpr hc)] at hinvisible
    cases hinvisible
  refine List.any_eq_false.mpr fun c hc => ?_
  have hnul : c.toNat ≠ 0 := fun h =>
    hnot c hc (Char.ofNat 0) (by decide) (by decide) (Char.toNat_inj.mp h)
  simp [hnot c hc '\r' (by decide) (by decide), hnot c hc '\n' (by decide) (by decide), hnul]

theorem forbidden_of_visible {s : String} (h : Visible s) : headerValueHasForbidden s = false := by
  refine List.any_eq_false.mpr fun c hc => ?_
  have hlow := h c hc
  have hne : ∀ d : Char, d.toNat ≤ 0x20 → c ≠ d := by
    rintro _ hd rfl
    omega
  simp [hne '\r' (by decide), hne '\n' (by decide)]
  omega

theorem forbidden_append {s t : String} (hs : headerValueHasForbidden s = false)
    (ht : headerValueHasForbidden t = false) : headerValueHasForbidden (s ++ t) = false := by
  rw [headerValueHasForbidden, String.toList_append, List.any_append, Bool.or_eq_false_iff]
  exact ⟨hs, ht⟩

/-! ## What the versions keep and add -/

theorem http2Keeps_endToEnd {h : Header} (hkeeps : http2Keeps h = true) :
    ¬ConnectionSpecific (lower h) := by
  rw [http2Keeps, Bool.not_eq_true', Bool.or_eq_false_iff] at hkeeps
  have hnot := List.any_eq_false.mp hkeeps.1
  have hcase : ∀ name, toAsciiLowercase name = name → toAsciiLowercase h.1 = name →
      eqIgnoreAsciiCase h.1 name = true := by
    intro name hname heq
    rw [eqIgnoreAsciiCase_iff, heq, hname]
  rintro (hmem | ⟨hte, -⟩)
  · have hlower : ∀ name ∈ ["connection", "proxy-connection", "keep-alive", "transfer-encoding",
        "upgrade"], toAsciiLowercase name = name := by decide +kernel
    refine hnot _ (List.mem_append_left ["te"] hmem) ?_
    exact hcase _ (hlower _ hmem) rfl
  · exact hnot "te" (by decide) (hcase "te" (by decide) hte)

theorem http3Keeps_endToEnd {h : Header} (hkeeps : http3Keeps h = true) :
    ¬ConnectionSpecific (lower h) := by
  rw [http3Keeps, Http3.omitRequestField, Bool.not_eq_true', Bool.or_eq_false_iff,
    Bool.or_eq_false_iff] at hkeeps
  obtain ⟨⟨-, hlisted⟩, hte⟩ := hkeeps
  rintro (hmem | ⟨hname, htrailers⟩)
  · have hnot : toAsciiLowercase h.1 ∉ ["host", "connection", "transfer-encoding", "upgrade",
        "keep-alive", "proxy-connection"] := by simpa using hlisted
    have hsubset : ["connection", "proxy-connection", "keep-alive", "transfer-encoding",
        "upgrade"] ⊆ ["host", "connection", "transfer-encoding", "upgrade", "keep-alive",
          "proxy-connection"] := by decide
    exact hnot (hsubset hmem)
  · change eqIgnoreAsciiCase (trim h.2) "trailers" = false at htrailers
    change toAsciiLowercase h.1 = "te" at hname
    rw [hname, htrailers] at hte
    cases hte

/-- Fields that are added are regular, and do not announce a length. -/
def Harmless (added : List Header) : Prop :=
  ∀ f ∈ added, RegularField f ∧ eqIgnoreAsciiCase f.1 "content-length" = false

theorem harmless_append {a b : List Header} (ha : Harmless a) (hb : Harmless b) :
    Harmless (a ++ b) := fun f hf => (List.mem_append.mp hf).elim (ha f) (hb f)

theorem harmless_unless (given : Bool) {f : Header}
    (hf : RegularField f ∧ eqIgnoreAsciiCase f.1 "content-length" = false) :
    Harmless (if given then [] else [f]) := by
  cases given with
  | true => exact nofun
  | false =>
    intro g hg
    rw [List.mem_singleton.mp hg]
    exact hf

theorem regularField_mk {name value : String}
    (hname : name ∈ ["authorization", "user-agent", "accept", "accept-encoding", "content-length"])
    (hvalue : headerValueHasForbidden value = false) : RegularField (name, value) := by
  have hnames : ∀ name ∈ ["authorization", "user-agent", "accept", "accept-encoding",
      "content-length"], toAsciiLowercase name = name ∧ isValidHeaderName name = true ∧
        name ∉ ["connection", "proxy-connection", "keep-alive", "transfer-encoding", "upgrade"] ∧
          name ≠ "te" := by decide +kernel
  obtain ⟨hlower, htoken, hnot, hte⟩ := hnames name hname
  exact ⟨hlower, htoken, head_of_valid htoken, hvalue, fun h => h.elim hnot fun h => hte h.1⟩

theorem exists_base64Encode {req : Http2.Request} {creds : String}
    (h : effectiveBasicAuth req = some creds) : ∃ input, creds = base64Encode input := by
  unfold effectiveBasicAuth at h
  extract_lets encode at h
  have hencode (pair : String × String) (hpair : encode pair = some creds) :
      ∃ input, creds = base64Encode input := by
    obtain ⟨-, heq⟩ := Option.ite_none_left_eq_some.mp hpair
    exact ⟨_, (Option.some.inj heq).symm⟩
  split at h
  · exact hencode _ h
  · obtain ⟨pair, -, hpair⟩ := Option.bind_eq_some_iff.mp h
    exact hencode pair hpair

theorem harmless_http2 (req : Http2.Request) (fields : List Header) :
    Harmless (Http2.automaticHeaders req fields) := by
  refine harmless_append (harmless_append (harmless_append ?_ ?_) ?_) ?_
  · intro f hf
    split at hf
    · cases hf
    · split at hf
      · rename_i creds hcreds
        rw [List.mem_singleton.mp hf]
        obtain ⟨input, rfl⟩ := exists_base64Encode hcreds
        exact ⟨regularField_mk (by decide)
          (forbidden_append (by decide) (forbidden_base64Encode input)),
          (by decide : eqIgnoreAsciiCase "authorization" "content-length" = false)⟩
      · cases hf
  · exact harmless_unless _ ⟨regularField_mk (by decide) (by decide), by decide⟩
  · exact harmless_unless _ ⟨regularField_mk (by decide) (by decide), by decide⟩
  · exact harmless_unless _ ⟨regularField_mk (by decide) (by decide), by decide⟩

theorem harmless_http3 (fields : List Header) : Harmless (Http3.automaticHeaders fields) :=
  harmless_append (harmless_unless _ ⟨regularField_mk (by decide) (by decide), by decide⟩)
    (harmless_unless _ ⟨regularField_mk (by decide) (by decide), by decide⟩)

theorem harmless_if (strict : Bool) {added : List Header} (h : Harmless added) :
    Harmless (if strict then [] else added) := by
  cases strict with
  | true => exact nofun
  | false => exact h

/-- What a version makes of the fields is well formed exactly if what it keeps is clean. -/
theorem wellFormed_iff {req : Http2.Request} {keeps : Header → Bool} {added fields : List Header}
    (pseudo : Http2.RequestPseudo)
    (hkeeps : ∀ h, keeps h = true → ¬ConnectionSpecific (lower h)) (hadded : Harmless added)
    (hfields : fields = (req.headers.filter keeps).map lower ++ added ++
      if req.body.isEmpty then [] else [("content-length", toString req.body.length)]) :
    WellFormed req.body.length (pseudoFields pseudo ++ fields) ↔ Clean keeps req := by
  have hvalues : valuesOf "content-length" fields =
      valuesOf "content-length" (req.headers.filter keeps) ++
        if req.body.isEmpty then [] else [toString req.body.length] := by
    have hself : valuesOf "content-length" [("content-length", toString req.body.length)] =
        [toString req.body.length] := by
      have hname : eqIgnoreAsciiCase "content-length" "content-length" = true := by decide
      simp [valuesOf, hname]
    rw [hfields, valuesOf_append, valuesOf_append, valuesOf_map_lower,
      valuesOf_eq_nil fun f hf => (hadded f hf).2, List.append_nil, apply_ite (valuesOf _), hself]
    rfl
  constructor
  · rintro ⟨pseudo', rest, heq, hregular, hlength⟩
    obtain ⟨-, rfl⟩ := List.append_inj heq rfl
    refine ⟨?_, ?_⟩
    · intro h hmem hkeep
      refine (regularField_lower (hkeeps h hkeep)).mp (hregular _ ?_)
      rw [hfields, List.append_assoc]
      exact List.mem_append_left _ (List.mem_map_of_mem (List.mem_filter.mpr ⟨hmem, hkeep⟩))
    · rw [hvalues] at hlength
      cases hbody : req.body with
      | nil =>
        rw [hbody] at hlength
        exact hlength.imp (fun h => by simpa using h)
          fun h => ⟨rfl, (List.append_nil _).symm.trans h⟩
      | cons b body =>
        rw [hbody] at hlength
        left
        simpa using hlength
  · rintro ⟨hvalid, hlength⟩
    refine ⟨pseudo, fields, rfl, ?_, ?_⟩
    · intro f hf
      rw [hfields, List.mem_append, List.mem_append] at hf
      rcases hf with (hf | hf) | hf
      · obtain ⟨h, hmem, rfl⟩ := List.mem_map.mp hf
        obtain ⟨hmem, hkeep⟩ := List.mem_filter.mp hmem
        exact (regularField_lower (hkeeps h hkeep)).mpr (hvalid h hmem hkeep)
      · exact (hadded f hf).1
      · split at hf
        · cases hf
        · rw [List.mem_singleton.mp hf]
          exact regularField_mk (by decide) (forbidden_of_visible (visible_nat _))
    · rw [hvalues]
      rcases hlength with hnone | ⟨hbody, hzero⟩
      · rw [hnone, List.nil_append]
        split
        · exact .inl rfl
        · exact .inr rfl
      · rw [hzero, hbody]
        exact .inr rfl

theorem http2_wellFormed_iff (req : Http2.Request) :
    WellFormed req.body.length (http2Fields req) ↔ Clean http2Keeps req := by
  refine wellFormed_iff _ (fun h => http2Keeps_endToEnd)
    (harmless_if req.strictHeaders (harmless_http2 req (Http2.sentHeaders req))) ?_
  have hsent : (req.headers.filter http2Keeps).map lower = Http2.sentHeaders req := rfl
  rw [hsent, Http2.requestHeaderFields]
  cases req.strictHeaders <;> cases req.body.isEmpty <;> simp

theorem http3_wellFormed_iff (req : Http2.Request) :
    WellFormed req.body.length (http3Fields req) ↔ Clean http3Keeps req := by
  refine wellFormed_iff _ (fun h => http3Keeps_endToEnd)
    (harmless_if req.strictHeaders (harmless_http3 (Http3.sentHeaders req))) ?_
  have hsent : (req.headers.filter http3Keeps).map lower = Http3.sentHeaders req := by
    rw [Http3.sentHeaders, List.filter_map]
    rfl
  rw [hsent, Http3.requestHeaderFields]
  cases req.strictHeaders <;> cases req.body.isEmpty <;> simp

/-- Neither version checks the caller's fields. What each puts on the wire is well formed exactly if
the fields it keeps would pass the check of HTTP/1.1 and announce no length. -/
theorem requests_wellFormed_iff (req : Http2.Request) :
    (WellFormed req.body.length (http2Fields req) ↔ Clean http2Keeps req) ∧
      (WellFormed req.body.length (http3Fields req) ↔ Clean http3Keeps req) :=
  ⟨http2_wellFormed_iff req, http3_wellFormed_iff req⟩

/-- A value with a line break goes out in both versions. -/
theorem not_wellFormed :
    let req : Http2.Request :=
      { Http2.Request.plain "GET" "h" "/" with headers := [("X-A", "1\r\nX-B: 2")] }
    ¬WellFormed 0 (http2Fields req) ∧ ¬WellFormed 0 (http3Fields req) ∧
      ∃ c id c', Http2.Connection.writeRequestHeaders c id req = .ok false c' := by
  intro req
  have hinvalid : validateHeader ("X-A", "1\r\nX-B: 2") ≠ .ok () := by decide
  refine ⟨?_, ?_, ?_⟩
  · intro h
    exact hinvalid (((http2_wellFormed_iff req).mp h).valid _ List.mem_cons_self (by decide))
  · intro h
    exact hinvalid (((http3_wellFormed_iff req).mp h).valid _ List.mem_cons_self (by decide))
  · -- the first stream of a connection that was just opened
    have hsent : (match Http2.Connection.new ⟨[], [], [], []⟩ 0 with
      | .ok c => match c.openStream with
        | .ok id c => match c.writeRequestHeaders id req with
          | .ok hasBody _ => some hasBody
          | .error .. => none
        | .error .. => none
      | .error _ => none) = some false := by decide +kernel
    split at hsent
    · split at hsent
      · split at hsent
        · cases hsent
          exact ⟨_, _, _, by assumption⟩
        · cases hsent
      · cases hsent
    · cases hsent

end Rsurl.Http
