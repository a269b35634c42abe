import Rsurl.Http.Digest.Params
import Rsurl.Http.Request

/-!
# What an answer says

The `Authorization` value is read as its recipient reads it: `Digest`, and keys with a token or a
quoted string each. Whatever was put into it, it says that and nothing else.
-/

namespace Rsurl.Http.Digest

open Text

/-! ## Reading -/

/-- A quoted string behind its first quote: what it says, and what is behind it. -/
def readQuotedString : List Char → Option (List Char × List Char)
  | [] => none
  | '"' :: rest => some ([], rest)
  | '\\' :: c :: rest => (readQuotedString rest).map fun (v, rest) => (c :: v, rest)
  | ['\\'] => none
  | c :: rest => (readQuotedString rest).map fun (v, rest) => (c :: v, rest)

def readToken (s : List Char) : Option (List Char × List Char) :=
  let t := s.takeWhile isTokenChar
  if t = [] then none else some (t, s.drop t.length)

/-- `key=token` or `key="quoted"`. -/
def readParam (s : List Char) : Option ((String × String) × List Char) := do
  let (key, rest) ← readToken s
  match rest with
  | '=' :: '"' :: rest =>
    let (v, rest) ← readQuotedString rest
    some ((String.ofList key, String.ofList v), rest)
  | '=' :: rest =>
    let (v, rest) ← readToken rest
    some ((String.ofList key, String.ofList v), rest)
  | _ => none

/-- Parameters between commas, no more than so many. -/
def readList : Nat → List Char → Option (List (String × String))
  | 0, _ => none
  | fuel + 1, s => do
    let (p, rest) ← readParam s
    match rest with
    | [] => some [p]
    | ',' :: rest =>
      (readList fuel (rest.dropWhile fun c => c == ' ' || c == '\t')).map (p :: ·)
    | _ => none

def readCredentials (value : String) : Option (List (String × String)) :=
  if "Digest ".toList.isPrefixOf value.toList then
    readList value.toList.length (value.toList.drop 7)
  else none

/-! ## Writing -/

/-- A parameter as it is written. -/
structure Written where
  key : String
  value : String
  quoted : Bool

def escape (s : List Char) : List Char :=
  s.flatMap fun c => if c == '"' || c == '\\' then ['\\', c] else [c]

def Written.text (p : Written) : List Char :=
  p.key.toList ++ '=' ::
    if p.quoted then '"' :: (escape p.value.toList ++ ['"']) else p.value.toList

def Written.entry (p : Written) : String × String := (p.key, p.value)

def IsToken (s : String) : Prop := s.toList ≠ [] ∧ ∀ c ∈ s.toList, isTokenChar c = true

/-- A parameter that is read as what it says, on one line. -/
structure Written.Fits (p : Written) : Prop where
  key : IsToken p.key
  token : p.quoted = false → IsToken p.value
  plain : ∀ c ∈ p.value.toList, splitsHeader c = false

theorem readQuotedString_plain {c : Char} (hquote : c ≠ '"') (hback : c ≠ '\\')
    (rest : List Char) :
    readQuotedString (c :: rest) = (readQuotedString rest).map fun (v, rest) => (c :: v, rest) := by
  rw [readQuotedString]
  · exact hquote
  · exact fun _ _ h => (hback h).elim
  · exact fun h => (hback h).elim

theorem readQuotedString_escape (s rest : List Char) :
    readQuotedString (escape s ++ '"' :: rest) = some (s, rest) := by
  induction s with
  | nil => rfl
  | cons c s ih =>
    have hcons : escape (c :: s) =
        (if c == '"' || c == '\\' then ['\\', c] else [c]) ++ escape s := by
      rw [escape, List.flatMap_cons]
      rfl
    rw [hcons]
    by_cases hc : (c == '"' || c == '\\') = true
    · rw [if_pos hc, List.append_assoc]
      exact congrArg _ ih
    · rw [if_neg hc, List.append_assoc, List.singleton_append]
      rw [Bool.or_eq_true, beq_iff_eq, beq_iff_eq, not_or] at hc
      rw [readQuotedString_plain hc.1 hc.2, ih]
      rfl

theorem readToken_append {s : String} (h : IsToken s) {rest : List Char}
    (hrest : ∀ c, rest.head? = some c → isTokenChar c = false) :
    readToken (s.toList ++ rest) = some (s.toList, rest) := by
  have htake : (s.toList ++ rest).takeWhile isTokenChar = s.toList := by
    rw [List.takeWhile_append_of_pos h.2]
    cases rest with
    | nil => simp
    | cons c rest =>
      have hc : ¬isTokenChar c = true := by simp [hrest c rfl]
      rw [List.takeWhile_cons_of_neg hc, List.append_nil]
  rw [readToken, htake, if_neg h.1, List.drop_left]

theorem readParam_text {p : Written} (hp : p.Fits) (rest : List Char)
    (hrest : ∀ c, rest.head? = some c → isTokenChar c = false) :
    readParam (p.text ++ rest) = some (p.entry, rest) := by
  obtain ⟨key, value, quoted⟩ := p
  obtain ⟨hkey, hvalue, -⟩ := hp
  dsimp only at hkey hvalue
  have hequals : ∀ tail c, ('=' :: tail).head? = some c → isTokenChar c = false := by
    rintro tail c heq
    cases heq
    decide
  rw [Written.text, List.append_assoc, List.cons_append]
  dsimp only
  cases quoted with
  | true =>
    rw [if_pos rfl, List.cons_append, List.append_assoc, readParam,
      readToken_append hkey (hequals _)]
    change (readQuotedString (escape value.toList ++ '"' :: rest)).bind _ = _
    rw [readQuotedString_escape, Option.bind_some]
    dsimp only
    rw [String.ofList_toList, String.ofList_toList]
    rfl
  | false =>
    have htoken := hvalue rfl
    rw [if_neg Bool.false_ne_true, readParam, readToken_append hkey (hequals _)]
    dsimp only [Option.bind_eq_bind, Option.bind_some]
    split
    · rename_i tail heq
      -- a token does not begin with a quote
      obtain ⟨c, t, hc⟩ := List.exists_cons_of_ne_nil htoken.1
      rw [hc] at heq
      injection heq with _ heq
      injection heq with heq _
      have hquote := htoken.2 c (hc ▸ List.mem_cons_self)
      rw [heq] at hquote
      exact absurd hquote (by decide)
    · rename_i tail _ heq
      injection heq with _ heq
      rw [← heq, readToken_append htoken hrest, Option.bind_some, String.ofList_toList,
        String.ofList_toList]
      rfl
    · rename_i hother
      exact (hother _ rfl).elim

/-- Written parameters, with commas between them. -/
def joined (ps : List Written) : List Char := [',', ' '].intercalate (ps.map Written.text)

theorem joined_singleton (p : Written) : joined [p] = p.text := List.intercalate_singleton

theorem joined_cons_cons (p q : Written) (ps : List Written) :
    joined (p :: q :: ps) = p.text ++ ',' :: ' ' :: joined (q :: ps) := by
  rw [joined, List.map_cons, List.map_cons, List.intercalate_cons_cons, List.append_assoc]
  rfl

theorem dropWhile_joined {p : Written} (hp : p.Fits) (ps : List Written) :
    (joined (p :: ps)).dropWhile (fun c => c == ' ' || c == '\t') = joined (p :: ps) := by
  obtain ⟨c, t, hc⟩ := List.exists_cons_of_ne_nil hp.key.1
  have htoken := hp.key.2 c (hc ▸ List.mem_cons_self)
  have hblank : ¬(c == ' ' || c == '\t') = true := by
    intro h
    rw [Bool.or_eq_true, beq_iff_eq, beq_iff_eq] at h
    rcases h with rfl | rfl <;> revert htoken <;> decide
  have hjoined : ∃ tail, joined (p :: ps) = c :: tail := by
    cases ps with
    | nil =>
      rw [joined_singleton, Written.text, hc]
      exact ⟨_, rfl⟩
    | cons q ps =>
      rw [joined_cons_cons, Written.text, hc]
      exact ⟨_, rfl⟩
  obtain ⟨tail, htail⟩ := hjoined
  rw [htail]
  exact List.dropWhile_cons_of_neg hblank

theorem readList_joined {ps : List Written} (hps : ∀ p ∈ ps, p.Fits) (hne : ps ≠ []) {fuel : Nat}
    (hfuel : ps.length ≤ fuel) : readList fuel (joined ps) = some (ps.map Written.entry) := by
  induction ps generalizing fuel with
  | nil => exact (hne rfl).elim
  | cons p ps ih =>
    obtain ⟨hp, hps⟩ := List.forall_mem_cons.mp hps
    cases fuel with
    | zero => cases hfuel
    | succ fuel =>
      cases ps with
      | nil =>
        have hread := readParam_text hp [] (by simp)
        rw [List.append_nil] at hread
        rw [joined_singleton, readList, hread]
        rfl
      | cons q ps =>
        have hread := readParam_text hp (',' :: ' ' :: joined (q :: ps)) (by
          rintro c heq
          cases heq
          decide)
        have hrest := ih hps (List.cons_ne_nil q ps) (Nat.le_of_succ_le_succ hfuel)
        have hblank : (' ' :: joined (q :: ps)).dropWhile (fun c => c == ' ' || c == '\t') =
            joined (q :: ps) := by
          rw [List.dropWhile_cons_of_pos (by decide)]
          exact dropWhile_joined (hps q List.mem_cons_self) ps
        rw [joined_cons_cons, readList, hread]
        change (readList fuel ((' ' :: joined (q :: ps)).dropWhile _)).map _ = _
        rw [hblank, hrest]
        rfl

theorem length_le_joined (ps : List Written) : ps.length ≤ (joined ps).length := by
  have htext : ∀ p : Written, 0 < p.text.length := by
    intro p
    rw [Written.text, List.length_append, List.length_cons]
    omega
  induction ps with
  | nil => exact Nat.zero_le _
  | cons p ps ih =>
    have hp := htext p
    cases ps with
    | nil =>
      rw [joined_singleton]
      exact hp
    | cons q ps =>
      rw [joined_cons_cons, List.length_append, List.length_cons, List.length_cons (a := ','),
        List.length_cons (a := ' ')]
      omega

theorem readCredentials_joined {value : String} {ps : List Written} (hps : ∀ p ∈ ps, p.Fits)
    (hne : ps ≠ []) (h : value.toList = "Digest ".toList ++ joined ps) :
    readCredentials value = some (ps.map Written.entry) := by
  have hprefix : "Digest ".toList.isPrefixOf ("Digest ".toList ++ joined ps) = true :=
    List.isPrefixOf_iff_prefix.mpr (List.prefix_append _ _)
  have hfuel : ps.length ≤ ("Digest ".toList ++ joined ps).length := by
    rw [List.length_append]
    exact (length_le_joined ps).trans (Nat.le_add_left _ _)
  have hdrop : ("Digest ".toList ++ joined ps).drop 7 = joined ps := List.drop_left' (by decide)
  rw [readCredentials, h, if_pos hprefix, hdrop, readList_joined hps hne hfuel]

/-! ## Answers -/

/-- The parameters of an answer. -/
def written (user realm nonce uri response : String) (opaqueParam algorithm qop : Option String)
    (cnonce : String) : List Written :=
  [⟨"username", user, true⟩, ⟨"realm", realm, true⟩, ⟨"nonce", nonce, true⟩, ⟨"uri", uri, true⟩,
    ⟨"response", response, true⟩] ++
  (opaqueParam.map fun v => ⟨"opaque", v, true⟩).toList ++
  (algorithm.map fun v => ⟨"algorithm", v, false⟩).toList ++
  match qop with
  | some q => [⟨"qop", q, false⟩, ⟨"nc", "00000001", false⟩, ⟨"cnonce", cnonce, true⟩]
  | none => []

theorem escape_eq_self {s : List Char} (h : ∀ c ∈ s, c ≠ '"' ∧ c ≠ '\\') : escape s = s := by
  induction s with
  | nil => rfl
  | cons c s ih =>
    obtain ⟨hc, hs⟩ := List.forall_mem_cons.mp h
    have hplain : ¬(c == '"' || c == '\\') = true := by
      rw [Bool.or_eq_true, beq_iff_eq, beq_iff_eq, not_or]
      exact hc
    rw [escape, List.flatMap_cons, if_neg hplain, ← escape, ih hs]
    rfl

theorem quote_eq_some {v q : String} (h : quote v = some q) :
    q.toList = escape v.toList ∧ ∀ c ∈ v.toList, splitsHeader c = false := by
  unfold quote at h
  split at h
  · cases h
  · rename_i hsplits
    cases h
    refine ⟨String.toList_ofList, ?_⟩
    simpa using hsplits

theorem isSafeQuoted_iff {v : String} : isSafeQuoted v = true ↔
    ∀ c ∈ v.toList, (c ≠ '"' ∧ c ≠ '\\') ∧ splitsHeader c = false := by
  simp [isSafeQuoted, and_assoc]

/-- The text of an answer. -/
def answerText (qUser realm nonce qUri response : String) (opaqueParam : Option String)
    (echoed : Bool) (algorithm : String) (qop : Option String) (cnonce : String) : String :=
  let nc := "00000001"
  s!"Digest username=\"{qUser}\", realm=\"{realm}\", nonce=\"{nonce}\", uri=\"{qUri}\", " ++
    s!"response=\"{response}\"" ++
    (match opaqueParam with
      | some v => s!", opaque=\"{v}\""
      | none => "") ++
    (if echoed then s!", algorithm={algorithm}" else "") ++
    (match qop with
      | some q => s!", qop={q}, nc={nc}, cnonce=\"{cnonce}\""
      | none => "")

/-- It is its parameters, one after another. -/
theorem toList_answerText {user realm nonce uri response cnonce qUser qUri : String}
    {opaqueParam : Option String} (algorithm : String) (qop : Option String) (echoed : Bool)
    (hUser : qUser.toList = escape user.toList)
    (hUri : qUri.toList = escape uri.toList) (hrealm : escape realm.toList = realm.toList)
    (hnonce : escape nonce.toList = nonce.toList)
    (hresponse : escape response.toList = response.toList)
    (hopq : ∀ v, opaqueParam = some v → escape v.toList = v.toList)
    (hcnonce : escape cnonce.toList = cnonce.toList) :
    (answerText qUser realm nonce qUri response opaqueParam echoed algorithm qop cnonce).toList =
      "Digest ".toList ++
        joined (written user realm nonce uri response opaqueParam
          (if echoed then some algorithm else none) qop cnonce) := by
  have hstring : ∀ s : String, toString s = s := fun _ => rfl
  unfold answerText
  cases opaqueParam <;> cases echoed <;> cases qop <;>
    simp [joined, written, Written.text, List.intercalate_cons_cons, *]

def isHexDigit (c : Char) : Bool :=
  c.isDigit || ('a' ≤ c && c ≤ 'f') || ('A' ≤ c && c ≤ 'F')

def IsHex (s : String) : Prop := ∀ c ∈ s.toList, isHexDigit c = true

theorem isHex_hex (bytes : Bytes) : IsHex (hex bytes) := by
  have hdigit : ∀ n : Fin 16, isHexDigit (Nat.digitChar n) = true := by decide
  intro c hc
  rw [hex, String.toList_ofList] at hc
  obtain ⟨b, -, hb⟩ := List.mem_flatMap.mp hc
  have hlt := b.toNat_lt
  rcases List.mem_cons.mp hb with rfl | hb
  · exact hdigit ⟨b.toNat / 16, by omega⟩
  · rw [List.mem_singleton.mp hb]
    exact hdigit ⟨b.toNat % 16, by omega⟩

theorem safe_of_isHex {s : String} (h : IsHex s) : isSafeQuoted s = true := by
  rw [isSafeQuoted_iff]
  intro c hc
  have hne : ∀ d, isHexDigit d = false → c ≠ d := by
    rintro d hd rfl
    rw [h c hc] at hd
    cases hd
  have hnul : c.toNat ≠ 0 := fun h0 => hne (Char.ofNat 0) (by decide) (Char.toNat_inj.mp h0)
  refine ⟨⟨hne '"' (by decide), hne '\\' (by decide)⟩, ?_⟩
  simp [splitsHeader, hne '\r' (by decide), hne '\n' (by decide), hnul]

theorem escape_of_safe {s : String} (h : isSafeQuoted s = true) : escape s.toList = s.toList :=
  escape_eq_self fun c hc => (isSafeQuoted_iff.mp h c hc).1

/-- What is answered: the values that were read and where they came from. -/
theorem authorizationWithCnonce_eq_some {hashes : Hashes} {user pass method uri : String}
    {body : Bytes} {challenge cnonce value : String}
    (h : authorizationWithCnonce hashes user pass method uri body challenge cnonce = some value) :
    ∃ chars realm nonce algorithm hashing qop qUser qUri response,
      digestParams challenge = some chars ∧ get (parseParams chars) "realm" = some realm ∧
      get (parseParams chars) "nonce" = some nonce ∧
      selectAlgorithm (get (parseParams chars) "algorithm") = some (algorithm, hashing) ∧
      selectQop (get (parseParams chars) "qop") = some qop ∧ quote user = some qUser ∧
      quote uri = some qUri ∧ isSafeQuoted realm = true ∧ isSafeQuoted nonce = true ∧
      (∀ v, get (parseParams chars) "opaque" = some v → isSafeQuoted v = true) ∧
      IsHex response ∧
      value = answerText qUser realm nonce qUri response (get (parseParams chars) "opaque")
        (get (parseParams chars) "algorithm").isSome algorithm qop cnonce := by
  unfold authorizationWithCnonce at h
  obtain ⟨chars, hchars, h⟩ := Option.bind_eq_some_iff.mp h
  obtain ⟨realm, hrealm, h⟩ := Option.bind_eq_some_iff.mp h
  obtain ⟨nonce, hnonce, h⟩ := Option.bind_eq_some_iff.mp h
  by_cases hsafe : (!isSafeQuoted realm || !isSafeQuoted nonce) = true
  · rw [if_pos hsafe] at h
    cases h
  rw [if_neg hsafe] at h
  obtain ⟨⟨algorithm, hashing⟩, halgorithm, h⟩ := Option.bind_eq_some_iff.mp h
  obtain ⟨qop, hqop, h⟩ := Option.bind_eq_some_iff.mp h
  obtain ⟨qUser, hUser, h⟩ := Option.bind_eq_some_iff.mp h
  obtain ⟨qUri, hUri, h⟩ := Option.bind_eq_some_iff.mp h
  by_cases hopq : (get (parseParams chars) "opaque").any (fun v => !isSafeQuoted v) = true
  · change (if (get (parseParams chars) "opaque").any (fun v => !isSafeQuoted v) = true then
      none.bind _ else _) = _ at h
    rw [if_pos hopq] at h
    cases h
  change (if (get (parseParams chars) "opaque").any (fun v => !isSafeQuoted v) = true then
    _ else some _) = _ at h
  rw [if_neg hopq] at h
  rw [Bool.or_eq_true, not_or, Bool.not_eq_true', Bool.not_eq_true', Bool.not_eq_false,
    Bool.not_eq_false] at hsafe
  have hopaqueSafe : ∀ v, get (parseParams chars) "opaque" = some v → isSafeQuoted v = true := by
    intro v hv
    rw [hv] at hopq
    simpa using hopq
  obtain ⟨response, hhex, hvalue⟩ : ∃ response, IsHex response ∧
      value = answerText qUser realm nonce qUri response (get (parseParams chars) "opaque")
        (get (parseParams chars) "algorithm").isSome algorithm qop cnonce := by
    generalize get (parseParams chars) "opaque" = opaqueParam at h
    cases opaqueParam <;> cases qop <;> exact ⟨_, isHex_hex _, (Option.some.inj h).symm⟩
  exact ⟨chars, realm, nonce, algorithm, hashing, qop, qUser, qUri, response, hchars, hrealm,
    hnonce, halgorithm, hqop, hUser, hUri, hsafe.1, hsafe.2, hopaqueSafe, hhex, hvalue⟩

theorem isToken_of_valid {s : String} (h : isValidHeaderName s = true) : IsToken s := by
  rw [isValidHeaderName, Bool.and_eq_true, decide_eq_true_eq, List.all_eq_true] at h
  exact ⟨fun hnil => h.1 (String.toList_eq_nil_iff.mp hnil), h.2⟩

theorem plain_of_token {c : Char} (h : isTokenChar c = true) : splitsHeader c = false := by
  have hne : ∀ d, isTokenChar d = false → c ≠ d := by
    rintro d hd rfl
    rw [h] at hd
    cases hd
  have hnul : c.toNat ≠ 0 := fun h0 => hne (Char.ofNat 0) (by decide) (Char.toNat_inj.mp h0)
  simp [splitsHeader, hne '\r' (by decide), hne '\n' (by decide), hnul]

theorem fits_token {key value : String} (hkey : IsToken key) (hvalue : IsToken value) :
    Written.Fits ⟨key, value, false⟩ :=
  ⟨hkey, fun _ => hvalue, fun c hc => plain_of_token (hvalue.2 c hc)⟩

theorem fits_quoted {key value : String} (hkey : IsToken key)
    (hvalue : ∀ c ∈ value.toList, splitsHeader c = false) : Written.Fits ⟨key, value, true⟩ :=
  ⟨hkey, fun h => (Bool.noConfusion h), hvalue⟩

/-- Nothing on one line splits it. -/
theorem plain_joined {ps : List Written} (hps : ∀ p ∈ ps, p.Fits) :
    ∀ c ∈ joined ps, splitsHeader c = false := by
  have htext : ∀ p : Written, p.Fits → ∀ c ∈ p.text, splitsHeader c = false := by
    intro p hp c hc
    have hescape : ∀ d ∈ escape p.value.toList, splitsHeader d = false := by
      intro d hd
      obtain ⟨e, he, hde⟩ := List.mem_flatMap.mp hd
      have hplain := hp.plain e he
      split at hde
      · simp only [List.mem_cons, List.not_mem_nil, or_false] at hde
        rcases hde with rfl | rfl
        · decide
        · exact hplain
      · rw [List.mem_singleton.mp hde]
        exact hplain
    rw [Written.text, List.mem_append, List.mem_cons] at hc
    rcases hc with hc | rfl | hc
    · exact plain_of_token (hp.key.2 c hc)
    · decide
    · split at hc
      · rw [List.mem_cons, List.mem_append, List.mem_singleton] at hc
        rcases hc with rfl | hc | rfl
        · decide
        · exact hescape c hc
        · decide
      · exact hp.plain c hc
  intro c hc
  induction ps with
  | nil => cases hc
  | cons p ps ih =>
    obtain ⟨hp, hps⟩ := List.forall_mem_cons.mp hps
    cases ps with
    | nil =>
      rw [joined_singleton] at hc
      exact htext p hp c hc
    | cons q ps =>
      rw [joined_cons_cons, List.mem_append, List.mem_cons, List.mem_cons] at hc
      rcases hc with hc | rfl | rfl | hc
      · exact htext p hp c hc
      · decide
      · decide
      · exact ih hps hc

theorem isToken_algorithm {raw : Option String} {algorithm : String} {hashing : Bool × Bool}
    (h : selectAlgorithm raw = some (algorithm, hashing)) : IsToken algorithm := by
  have hmd5 : IsToken "MD5" := isToken_of_valid (by decide)
  have hmd5Sess : IsToken "MD5-sess" := isToken_of_valid (by decide)
  have hsha : IsToken "SHA-256" := isToken_of_valid (by decide)
  have hshaSess : IsToken "SHA-256-sess" := isToken_of_valid (by decide)
  cases raw with
  | none =>
    cases h
    exact hmd5
  | some a =>
    rw [selectAlgorithm] at h
    split at h
    · cases h
      exact hmd5
    split at h
    · cases h
      exact hmd5Sess
    split at h
    · cases h
      exact hsha
    split at h
    · cases h
      exact hshaSess
    · cases h

theorem isToken_qop {raw : Option String} {q : String} (h : selectQop raw = some (some q)) :
    IsToken q := by
  have hauth : IsToken "auth" := isToken_of_valid (by decide)
  have hauthInt : IsToken "auth-int" := isToken_of_valid (by decide)
  cases raw with
  | none => cases h
  | some a =>
    rw [selectQop] at h
    dsimp only at h
    split at h
    · cases h
      exact hauth
    split at h
    · cases h
      exact hauthInt
    · cases h

theorem plain_of_safe {v : String} (h : isSafeQuoted v = true) :
    ∀ c ∈ v.toList, splitsHeader c = false := fun c hc => (isSafeQuoted_iff.mp h c hc).2

theorem fits_written {user realm nonce uri response cnonce : String}
    {opaqueParam algorithm qop : Option String} (huser : ∀ c ∈ user.toList, splitsHeader c = false)
    (huri : ∀ c ∈ uri.toList, splitsHeader c = false) (hrealm : isSafeQuoted realm = true)
    (hnonce : isSafeQuoted nonce = true) (hresponse : IsHex response)
    (hopq : ∀ v, opaqueParam = some v → isSafeQuoted v = true)
    (halgorithm : ∀ a, algorithm = some a → IsToken a) (hqop : ∀ q, qop = some q → IsToken q)
    (hcnonce : IsHex cnonce) :
    ∀ p ∈ written user realm nonce uri response opaqueParam algorithm qop cnonce, p.Fits := by
  intro p hp
  unfold written at hp
  rw [List.mem_append, List.mem_append, List.mem_append] at hp
  rcases hp with ((hp | hp) | hp) | hp
  · simp only [List.mem_cons, List.not_mem_nil, or_false] at hp
    rcases hp with rfl | rfl | rfl | rfl | rfl
    · exact fits_quoted (isToken_of_valid (by decide)) huser
    · exact fits_quoted (isToken_of_valid (by decide)) (plain_of_safe hrealm)
    · exact fits_quoted (isToken_of_valid (by decide)) (plain_of_safe hnonce)
    · exact fits_quoted (isToken_of_valid (by decide)) huri
    · exact fits_quoted (isToken_of_valid (by decide)) (plain_of_safe (safe_of_isHex hresponse))
  · obtain ⟨v, hv, rfl⟩ := Option.mem_map.mp (Option.mem_toList.mp hp)
    exact fits_quoted (isToken_of_valid (by decide)) (plain_of_safe (hopq v hv))
  · obtain ⟨a, ha, rfl⟩ := Option.mem_map.mp (Option.mem_toList.mp hp)
    exact fits_token (isToken_of_valid (by decide)) (halgorithm a ha)
  · cases qop with
    | none => cases hp
    | some q =>
      simp only [List.mem_cons, List.not_mem_nil, or_false] at hp
      rcases hp with rfl | rfl | rfl
      · exact fits_token (isToken_of_valid (by decide)) (hqop q rfl)
      · exact fits_token (isToken_of_valid (by decide)) (isToken_of_valid (by decide))
      · exact fits_quoted (isToken_of_valid (by decide)) (plain_of_safe (safe_of_isHex hcnonce))

/-- What an answer says. -/
def answer (user realm nonce uri response : String) (opaqueParam algorithm qop : Option String)
    (cnonce : String) : List (String × String) :=
  [("username", user), ("realm", realm), ("nonce", nonce), ("uri", uri), ("response", response)] ++
  (opaqueParam.map ("opaque", ·)).toList ++ (algorithm.map ("algorithm", ·)).toList ++
  match qop with
  | some q => [("qop", q), ("nc", "00000001"), ("cnonce", cnonce)]
  | none => []

theorem written_says (user realm nonce uri response : String)
    (opaqueParam algorithm qop : Option String) (cnonce : String) :
    (written user realm nonce uri response opaqueParam algorithm qop cnonce).map Written.entry =
      answer user realm nonce uri response opaqueParam algorithm qop cnonce := by
  cases opaqueParam <;> cases algorithm <;> cases qop <;> rfl

theorem answer_nodup (user realm nonce uri response : String)
    (opaqueParam algorithm qop : Option String) (cnonce : String) :
    ((answer user realm nonce uri response opaqueParam algorithm qop cnonce).map
      Prod.fst).Nodup := by
  cases opaqueParam <;> cases algorithm <;> cases qop <;> simp [answer]

/-- An answer is one line, and is read as the keys that it should have, each once: the user and the
URI as they were given, and the realm, the nonce and the opaque value as they were read from the
challenge. Reading a challenge ends, and never cuts inside a character. -/
theorem digest_exact :
    (∀ hashes user pass method uri body challenge cnonce value, IsHex cnonce →
      authorizationWithCnonce hashes user pass method uri body challenge cnonce = some value →
      (∀ c ∈ value.toList, c ≠ '\r' ∧ c ≠ '\n' ∧ c.toNat ≠ 0) ∧
      ∃ chars realm nonce algorithm hashing qop response,
        digestParams challenge = some chars ∧ get (parseParams chars) "realm" = some realm ∧
        get (parseParams chars) "nonce" = some nonce ∧
        selectAlgorithm (get (parseParams chars) "algorithm") = some (algorithm, hashing) ∧
        selectQop (get (parseParams chars) "qop") = some qop ∧
        ∃ said, readCredentials value = some said ∧ (said.map Prod.fst).Nodup ∧
          said = answer user realm nonce uri response (get (parseParams chars) "opaque")
            (if (get (parseParams chars) "algorithm").isSome then some algorithm else none) qop
            cnonce) ∧
    ∀ s : String, parseParamsAt s = .ok (parseParams s.toList) := by
  refine ⟨?_, parseParamsAt_eq⟩
  intro hashes user pass method uri body challenge cnonce value hcnonce h
  obtain ⟨chars, realm, nonce, algorithm, hashing, qop, qUser, qUri, response, hchars, hrealm,
    hnonce, halgorithm, hqop, hUser, hUri, hrealmSafe, hnonceSafe, hopq, hresponse, rfl⟩ :=
    authorizationWithCnonce_eq_some h
  obtain ⟨hUser, huser⟩ := quote_eq_some hUser
  obtain ⟨hUri, huri⟩ := quote_eq_some hUri
  have hechoed : ∀ a, (if (get (parseParams chars) "algorithm").isSome then some algorithm
      else none) = some a → IsToken a := by
    intro a ha
    split at ha
    · cases ha
      exact isToken_algorithm halgorithm
    · cases ha
  have hqopToken : ∀ q, qop = some q → IsToken q := by
    rintro q rfl
    exact isToken_qop hqop
  have hfits := fits_written huser huri hrealmSafe hnonceSafe hresponse hopq hechoed hqopToken
    hcnonce
  have hne : written user realm nonce uri response (get (parseParams chars) "opaque")
      (if (get (parseParams chars) "algorithm").isSome then some algorithm else none) qop cnonce ≠
      [] := by
    simp [written]
  have htext := toList_answerText algorithm qop (get (parseParams chars) "algorithm").isSome
    hUser hUri (escape_of_safe hrealmSafe) (escape_of_safe hnonceSafe)
    (escape_of_safe (safe_of_isHex hresponse))
    (fun v hv => escape_of_safe (hopq v hv)) (escape_of_safe (safe_of_isHex hcnonce))
  constructor
  · intro c hc
    have hplain : splitsHeader c = false := by
      rw [htext, List.mem_append] at hc
      rcases hc with hc | hc
      · have hscheme : ("Digest ".toList.all fun c => !splitsHeader c) = true := by decide
        simpa using List.all_eq_true.mp hscheme c hc
      · exact plain_joined hfits c hc
    simpa [splitsHeader, and_assoc] using hplain
  · refine ⟨chars, realm, nonce, algorithm, hashing, qop, response, hchars, hrealm, hnonce,
      halgorithm, hqop, _, ?_, answer_nodup .., rfl⟩
    rw [readCredentials_joined hfits hne htext, written_says]

/-- What MD5 makes of the texts of one answer. -/
def oneAnswer : Hashes where
  md5 bytes :=
    if bytes = asBytes "a\"b:r:p" then
      [0x2c, 0xa5, 0xe2, 0xcd, 0x2f, 0x41, 0xd5, 0x77, 0x76, 0x63, 0x85, 0x06, 0x8b, 0x6b, 0x48,
        0x9c]
    else if bytes = asBytes "GET:/" then
      [0x71, 0x99, 0x8c, 0x64, 0xae, 0xa3, 0x7a, 0xe7, 0x70, 0x20, 0xc4, 0x9c, 0x00, 0xf7, 0x3f,
        0xa8]
    else
      [0x2a, 0x98, 0x55, 0x81, 0x89, 0xd8, 0x90, 0x42, 0x86, 0xe1, 0x07, 0x2c, 0xb0, 0x74, 0x2c,
        0xa2]
  sha256 _ := []

/-- The quote in the user name does not end it. -/
theorem digest_exact_quote :
    ∃ said, readCredentials
        ("Digest username=\"a\\\"b\", realm=\"r\", nonce=\"n\", uri=\"/\", " ++
          "response=\"2a98558189d8904286e1072cb0742ca2\"") =
      some said ∧ (said.map Prod.fst).Nodup := by
  have hauth : authorizationWithCnonce oneAnswer "a\"b" "p" "GET" "/" []
      "Digest realm=\"r\", nonce=\"n\"" "" =
      some ("Digest username=\"a\\\"b\", realm=\"r\", nonce=\"n\", uri=\"/\", " ++
          "response=\"2a98558189d8904286e1072cb0742ca2\"") := by
    decide +kernel
  obtain ⟨-, _, _, _, _, _, _, _, _, _, _, _, _, said, hsaid, hnodup, -⟩ :=
    digest_exact.1 _ _ _ _ _ _ _ _ _ (by intro c hc; cases hc) hauth
  exact ⟨said, hsaid, hnodup⟩

end Rsurl.Http.Digest
