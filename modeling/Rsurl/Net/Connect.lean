import Rsurl.Net.Tunnel

/-!
# What CONNECT tells the proxy

The authority of the request is read back as the host and the port unless the host contains a
delimiter of the request line or of the authority; the credentials, unless the user contains a colon.
-/

namespace Rsurl.Net

open Library Text
open Library.Delimited (upTo upTo_append upTo_eq_some)

/-! ## Base64 -/

theorem base64Value_char {n : Nat} (h : n < 64) :
    base64Value (UInt8.ofNat (Http2.base64Char n).toNat) = some n := by
  have hall : ∀ i : Fin 64, base64Value (UInt8.ofNat (Http2.base64Char i).toNat) = some (i : Nat) := by
    simp only [Http2.base64Char_eq]
    decide +kernel
  exact hall ⟨n, h⟩

theorem base64Char_toNat {n : Nat} (h : n < 64) :
    (Http2.base64Char n).toNat < 0x80 ∧ isVisible (UInt8.ofNat (Http2.base64Char n).toNat) = true ∧
      UInt8.ofNat (Http2.base64Char n).toNat ≠ 0x3d := by
  have hall : ∀ i : Fin 64, (Http2.base64Char i).toNat < 0x80 ∧
      isVisible (UInt8.ofNat (Http2.base64Char i).toNat) = true ∧
      UInt8.ofNat (Http2.base64Char i).toNat ≠ 0x3d := by
    simp only [Http2.base64Char_eq]
    decide +kernel
  exact hall ⟨n, h⟩

/-- Characters of the encoding, as bytes. -/
def encoded (l : List Nat) : Bytes := (Http2.base64Chars l).map fun c => UInt8.ofNat c.toNat

theorem base64Decode_encoded (l : List Nat) (h : ∀ n ∈ l, n < 256) :
    base64Decode (encoded l) = some (l.map UInt8.ofNat) := by
  induction l using Http2.base64Chars.induct with
  | case1 b₀ b₁ b₂ rest ih =>
    have h₀ := h b₀ (by simp)
    have h₁ := h b₁ (by simp)
    have h₂ := h b₂ (by simp)
    have hrest := ih fun n hn => h n (by simp [hn])
    have hlast := (base64Char_toNat (n := b₂ % 64) (by omega)).2.2
    have e₀ : b₀ / 4 * 4 + (b₀ % 4 * 16 + b₁ / 16) / 16 = b₀ := by omega
    have e₁ : (b₀ % 4 * 16 + b₁ / 16) % 16 * 16 + (b₁ % 16 * 4 + b₂ / 64) / 4 = b₁ := by omega
    have e₂ : (b₁ % 16 * 4 + b₂ / 64) % 4 * 64 + b₂ % 64 = b₂ := by omega
    rw [encoded] at hrest
    rw [encoded, Http2.base64Chars, List.map_cons, List.map_cons, List.map_cons, List.map_cons,
      base64Decode, base64Value_char (by omega), base64Value_char (by omega),
      base64Value_char (by omega), base64Value_char (by omega)]
    simp only [Option.bind_eq_bind, Option.bind_some, hlast, false_and, if_false, hrest, e₀, e₁, e₂,
      List.map_cons, Option.pure_def]
  | case2 b₀ b₁ =>
    have h₀ := h b₀ (by simp)
    have h₁ := h b₁ (by simp)
    have hlast := (base64Char_toNat (n := b₁ % 16 * 4) (by omega)).2.2
    have e₀ : b₀ / 4 * 4 + (b₀ % 4 * 16 + b₁ / 16) / 16 = b₀ := by omega
    have e₁ : (b₀ % 4 * 16 + b₁ / 16) % 16 * 16 + b₁ % 16 * 4 / 4 = b₁ := by omega
    have hpad : UInt8.ofNat '='.toNat = 0x3d := rfl
    rw [encoded, Http2.base64Chars, List.map_cons, List.map_cons, List.map_cons, List.map_cons,
      base64Decode, base64Value_char (by omega), base64Value_char (by omega),
      base64Value_char (by omega)]
    simp only [Option.bind_eq_bind, Option.bind_some, List.map_nil, hpad, and_self, if_true, hlast,
      if_false, e₀, e₁, List.map_cons, Option.pure_def]
  | case3 b₀ =>
    have h₀ := h b₀ (by simp)
    have e₀ : b₀ / 4 * 4 + b₀ % 4 * 16 / 16 = b₀ := by omega
    have hpad : UInt8.ofNat '='.toNat = 0x3d := rfl
    rw [encoded, Http2.base64Chars, List.map_cons, List.map_cons, List.map_cons, List.map_cons,
      base64Decode, base64Value_char (by omega), base64Value_char (by omega)]
    simp only [Option.bind_eq_bind, Option.bind_some, List.map_nil, hpad, and_self, if_true, e₀,
      List.map_cons, Option.pure_def]
  | case4 => rfl

/-! ## The authority -/

theorem readNumber_repr (n : Nat) : readNumber (asBytes n.repr) = some n := by
  have hne : asBytes n.repr ≠ [] := by
    rw [asBytes_repr]
    simpa using Nat.toDigits_ne_nil
  have hvalue : (asBytes n.repr).foldl (fun acc b => acc * 10 + (b.toNat - 0x30)) 0 = n := by
    rw [asBytes_repr, foldl_digits fun c hc =>
      Nat.isDigit_of_mem_toDigits (by decide) (by decide) hc, Nat.ofDigitChars_ten_toDigits]
  rw [readNumber, all_asBytes_repr, List.isEmpty_eq_false_iff.mpr hne, hvalue]
  rfl

theorem all_of_readNumber {digits : Bytes} {n : Nat} (h : readNumber digits = some n) :
    ∀ b ∈ digits, isAsciiDigit b = true := by
  unfold readNumber at h
  split at h
  · cases h
  · rename_i hdigits
    rw [Bool.or_eq_true, not_or, Bool.not_eq_true', Bool.not_eq_false] at hdigits
    exact List.all_eq_true.mp hdigits.2

/-- Two strings with a colon between them. -/
theorem asBytes_colon (s t : String) : asBytes s!"{s}:{t}" = asBytes s ++ 0x3a :: asBytes t := by
  have hcolon : asBytes ":" = [0x3a] := by decide
  show asBytes (s ++ ":" ++ t) = _
  rw [asBytes_append, asBytes_append, hcolon, List.append_assoc]
  rfl

theorem asBytes_bare (host : String) (port : Nat) :
    asBytes s!"{host}:{port}" = asBytes host ++ 0x3a :: asBytes port.repr :=
  asBytes_colon host port.repr

theorem asBytes_bracketed (host : String) (port : Nat) :
    asBytes s!"[{host}]:{port}" =
      0x5b :: (asBytes host ++ 0x5d :: 0x3a :: asBytes port.repr) := by
  have hopen : asBytes "[" = [0x5b] := by decide
  have hclose : asBytes "]:" = [0x5d, 0x3a] := by decide
  show asBytes ("[" ++ host ++ "]:" ++ port.repr) = _
  rw [asBytes_append, asBytes_append, asBytes_append, hopen, hclose]
  simp

theorem startsWith_bracket (host : String) :
    startsWith "[" host = true ↔ ∃ t, host.toList = '[' :: t := by
  unfold startsWith
  cases host.toList with
  | nil => simp
  | cons c t =>
    have hpre : "[".toList.isPrefixOf (c :: t) = ('[' == c) := by
      show ('[' == c && true) = _
      rw [Bool.and_true]
    rw [hpre, beq_iff_eq]
    constructor
    · rintro rfl
      exact ⟨t, rfl⟩
    · rintro ⟨t', ht⟩
      exact (List.cons.inj ht).1.symm

/-- Brackets stand only around all of a host, and not inside one with a colon. -/
structure Bracketed (host : String) : Prop where
  closed : ∀ t, host.toList = '[' :: t → ∃ inner, t = inner ++ [']'] ∧ ']' ∉ inner
  bare : startsWith "[" host = false → ':' ∈ host.toList → ']' ∉ host.toList

/-- Two splits at the last delimiter are the same. -/
theorem split_last {x y u v : Bytes} {d : UInt8} (h : x ++ d :: u = y ++ d :: v) (hu : d ∉ u)
    (hv : d ∉ v) : x = y := by
  have hreverse (a b : Bytes) : (a ++ d :: b).reverse = b.reverse ++ d :: a.reverse := by simp
  have hx := upTo_append (fun hin => hu (List.mem_reverse.mp hin)) x.reverse
  have hy := upTo_append (fun hin => hv (List.mem_reverse.mp hin)) y.reverse
  rw [← hreverse, h, hreverse] at hx
  rw [hy] at hx
  simpa using (Prod.mk.inj (Option.some.inj hx)).2.symm

theorem not_digit_mem {digits : Bytes} {n : Nat} (h : readNumber digits = some n) {b : UInt8}
    (hb : isAsciiDigit b = false) : b ∉ digits := by
  intro hin
  rw [all_of_readNumber h b hin] at hb
  cases hb

theorem unbracket_of_head {host : String} (h : startsWith "[" host = false) :
    unbracket host = host := by
  unfold unbracket
  split
  · rename_i rest hhost
    rw [(startsWith_bracket host).mpr ⟨rest, hhost⟩] at h
    cases h
  · rfl

theorem unbracket_closed {host : String} {inner : List Char}
    (h : host.toList = '[' :: (inner ++ [']'])) : unbracket host = String.ofList inner := by
  simp [unbracket, h]

theorem of_readAuthority_bracket {rest host : Bytes} {port : Nat}
    (h : readAuthority (0x5b :: rest) = some (host, port)) :
    ∃ p, rest = host ++ 0x5d :: 0x3a :: p ∧ 0x5d ∉ host ∧ readNumber p = some port := by
  rw [readAuthority] at h
  split at h
  · rename_i inner p hup
    obtain ⟨n, hn, hsame⟩ := Option.map_eq_some_iff.mp h
    cases hsame
    obtain ⟨rfl, hnot⟩ := upTo_eq_some.mp hup
    exact ⟨p, rfl, hnot, hn⟩
  · cases h

theorem readAuthority_authority (host : String) (port : Nat) :
    readAuthority (asBytes (authority host port)) = some (asBytes (unbracket host), port) ↔
      Bracketed host := by
  have hport := readNumber_repr port
  have hclose (s : String) : (0x5d : UInt8) ∈ asBytes s ↔ ']' ∈ s.toList :=
    mem_asBytes (c := ']') (by decide)
  cases hhead : startsWith "[" host with
  | true =>
    obtain ⟨t, ht⟩ := (startsWith_bracket host).mp hhead
    have hhost : asBytes host = 0x5b :: asBytes (String.ofList t) := by
      have hcons := asBytes_cons (c := '[') (by decide) t
      rwa [← ht, String.ofList_toList] at hcons
    have hbare : authority host port = s!"{host}:{port}" := by simp [authority, hhead]
    rw [hbare, asBytes_bare, hhost, List.cons_append]
    constructor
    · intro h
      refine ⟨fun t' ht' => ?_, fun hfalse => absurd (hhead.symm.trans hfalse) nofun⟩
      obtain rfl : t = t' := (List.cons.inj (ht.symm.trans ht')).2
      obtain ⟨p, heq, hnot, hn⟩ := of_readAuthority_bracket h
      have hrest : asBytes (String.ofList t) = asBytes (unbracket host) ++ [0x5d] := by
        refine split_last (d := 0x3a) ?_ (not_digit_mem hport (by decide))
          (not_digit_mem hn (by decide))
        rw [heq, List.append_assoc]
        rfl
      by_cases hlast : t.getLast? = some ']'
      · obtain ⟨inner, rfl⟩ := List.getLast?_eq_some_iff.mp hlast
        refine ⟨inner, rfl, ?_⟩
        rwa [unbracket_closed ht, hclose, String.toList_ofList] at hnot
      · -- then the brackets would stay, and the host be longer than itself
        have hself : unbracket host = host := by simp [unbracket, ht, hlast]
        have hlen := congrArg List.length hrest
        rw [hself, hhost] at hlen
        simp at hlen
        omega
    · intro h
      obtain ⟨inner, rfl, hinner⟩ := h.closed t ht
      have hsplit : asBytes (String.ofList (inner ++ [']'])) =
          asBytes (String.ofList inner) ++ [0x5d] := by
        rw [String.ofList_append, asBytes_append]
        rfl
      have hnot : (0x5d : UInt8) ∉ asBytes (String.ofList inner) := fun hin =>
        hinner (by simpa using (hclose _).mp hin)
      rw [readAuthority, hsplit, List.append_assoc, List.singleton_append, upTo_append hnot]
      simp [hport, unbracket_closed ht]
  | false =>
    have hunclosed : ∀ t, host.toList = '[' :: t → ∃ inner, t = inner ++ [']'] ∧ ']' ∉ inner := by
      intro t ht
      rw [(startsWith_bracket host).mpr ⟨t, ht⟩] at hhead
      cases hhead
    rw [unbracket_of_head hhead]
    by_cases hin : ':' ∈ host.toList
    · have hbracketed : authority host port = s!"[{host}]:{port}" := by simp [authority, hhead, hin]
      rw [hbracketed, asBytes_bracketed]
      constructor
      · intro h
        refine ⟨hunclosed, fun _ _ => ?_⟩
        obtain ⟨p, -, hnot, -⟩ := of_readAuthority_bracket h
        rwa [← hclose]
      · intro h
        have hnot : (0x5d : UInt8) ∉ asBytes host := fun hmem =>
          h.bare hhead hin ((hclose host).mp hmem)
        rw [readAuthority, upTo_append hnot]
        simp [hport]
    · have hbare : authority host port = s!"{host}:{port}" := by simp [authority, hin]
      have hnot : (0x3a : UInt8) ∉ asBytes host := fun hmem =>
        hin ((mem_asBytes (c := ':') (by decide)).mp hmem)
      have hread : readAuthority (asBytes host ++ 0x3a :: asBytes port.repr) =
          some (asBytes host, port) := by
        rw [readAuthority]
        · rw [upTo_append hnot]
          simp [hport]
        · intro rest hrest
          cases hbytes : asBytes host with
          | nil =>
            rw [hbytes] at hrest
            cases hrest
          | cons b bs =>
            rw [hbytes] at hrest
            obtain ⟨rfl, -⟩ := List.cons.inj hrest
            obtain ⟨t, ht, -⟩ := head_asBytes (c := '[') (by decide) hbytes
            rw [(startsWith_bracket host).mpr ⟨t, ht⟩] at hhead
            cases hhead
      rw [hbare, asBytes_bare, hread]
      exact iff_of_true rfl ⟨hunclosed, fun _ h => absurd h hin⟩

/-! ## The message -/

def fieldLine (f : Bytes × Bytes) : Bytes := f.1 ++ 0x3a :: 0x20 :: f.2

/-- A field that reads back as it is. -/
structure FieldPlain (f : Bytes × Bytes) : Prop where
  name : 0x3a ∉ f.1
  line : 0x0d ∉ fieldLine f
  trimmed : trimBlanks (0x20 :: f.2) = f.2

theorem readCrlf_append {line : Bytes} (h : 0x0d ∉ line) (rest : Bytes) :
    readCrlf (line ++ crlf ++ rest) = some (line, rest) := by
  have hcut : upTo 0x0d (line ++ crlf ++ rest) = some (line, 0x0a :: rest) := by
    rw [List.append_assoc]
    exact upTo_append h _
  rw [readCrlf, hcut]
  rfl

theorem readFields_lines {fields : List (Bytes × Bytes)} (h : ∀ f ∈ fields, FieldPlain f) {left : Nat}
    (hleft : fields.length < left) :
    readFields left (fields.flatMap (fun f => fieldLine f ++ crlf) ++ crlf) = some (fields, []) := by
  induction fields generalizing left with
  | nil =>
    obtain ⟨k, rfl⟩ := Nat.exists_eq_succ_of_ne_zero (Nat.ne_of_gt hleft)
    have hread := readCrlf_append (List.not_mem_nil : (0x0d : UInt8) ∉ []) []
    simp only [List.nil_append, List.append_nil] at hread
    simp [readFields, hread]
  | cons f fields ih =>
    obtain ⟨k, rfl⟩ := Nat.exists_eq_succ_of_ne_zero (Nat.ne_of_gt (Nat.zero_lt_of_lt hleft))
    have hf := h f List.mem_cons_self
    have hrest := ih (fun f' hf' => h f' (.tail _ hf')) (Nat.lt_of_succ_lt_succ hleft)
    have hread := readCrlf_append hf.line (fields.flatMap (fun f => fieldLine f ++ crlf) ++ crlf)
    have hne : fieldLine f ≠ [] := by simp [fieldLine]
    have hsplit : upTo 0x3a (fieldLine f) = some (f.1, 0x20 :: f.2) := upTo_append hf.name _
    rw [List.flatMap_cons, List.append_assoc, readFields, hread]
    simp [hne, hsplit, hrest, hf.trimmed]

def credsField (creds : String × String) : Bytes × Bytes :=
  (asBytes "Proxy-Authorization",
    asBytes "Basic " ++ asBytes (Http2.base64Encode (asBytes s!"{creds.1}:{creds.2}")))

def connectFields (hostPort : Bytes) (auth : Option (String × String)) : List (Bytes × Bytes) :=
  (asBytes "Host", hostPort) :: (asBytes "Proxy-Connection", asBytes "Keep-Alive") ::
    (auth.map credsField).toList

theorem asBytes_connectHeaders (host : String) (port : UInt16) (auth : Option (String × String)) :
    asBytes (connectHeaders host port auth) =
      (asBytes "CONNECT" ++ 0x20 :: (asBytes (authority host port.toNat) ++ 0x20 ::
        asBytes "HTTP/1.1")) ++ crlf ++
      ((connectFields (asBytes (authority host port.toNat)) auth).flatMap
        (fun f => fieldLine f ++ crlf) ++ crlf) := by
  have hend : asBytes "\r\n" = crlf := by decide
  have hspace : asBytes "CONNECT " = asBytes "CONNECT" ++ [0x20] := by decide
  have hversion : asBytes " HTTP/1.1\r\nHost: " =
      0x20 :: (asBytes "HTTP/1.1" ++ crlf ++ asBytes "Host" ++ [0x3a, 0x20]) := by decide
  have hkeep : asBytes "Proxy-Connection: Keep-Alive\r\n" =
      asBytes "Proxy-Connection" ++ [0x3a, 0x20] ++ asBytes "Keep-Alive" ++ crlf := by decide
  have hbasic : asBytes "Proxy-Authorization: Basic " =
      asBytes "Proxy-Authorization" ++ [0x3a, 0x20] ++ asBytes "Basic " := by decide
  cases auth with
  | none =>
    show asBytes ("CONNECT " ++ authority host port.toNat ++ " HTTP/1.1\r\nHost: " ++
      authority host port.toNat ++ "\r\n" ++ "Proxy-Connection: Keep-Alive\r\n" ++ "" ++ "\r\n") = _
    simp only [asBytes_append, hend, hspace, hversion, hkeep]
    simp [connectFields, fieldLine, asBytes]
  | some creds =>
    show asBytes ("CONNECT " ++ authority host port.toNat ++ " HTTP/1.1\r\nHost: " ++
      authority host port.toNat ++ "\r\n" ++ "Proxy-Connection: Keep-Alive\r\n" ++
      ("Proxy-Authorization: Basic " ++
        Http2.base64Encode (asBytes s!"{creds.1}:{creds.2}") ++ "\r\n") ++ "\r\n") = _
    set token := Http2.base64Encode (asBytes s!"{creds.1}:{creds.2}")
    simp only [asBytes_append, hend, hspace, hversion, hkeep, hbasic]
    simp [connectFields, fieldLine, credsField, token]

theorem trimBlanks_padded {v : Bytes} (hhead : ∀ b, v.head? = some b → isBlank b = false)
    (hlast : ∀ b, v.getLast? = some b → isBlank b = false) : trimBlanks (0x20 :: v) = v := by
  have hdrop : v.dropWhile isBlank = v := by
    cases v with
    | nil => rfl
    | cons b v => simp [hhead b rfl]
  have hrdrop : v.rdropWhile isBlank = v := by
    rw [List.rdropWhile_eq_self_iff]
    intro hne
    rw [hlast _ (List.getLast?_eq_getLast_of_ne_nil hne)]
    exact Bool.false_ne_true
  rw [trimBlanks, List.dropWhile_cons_of_pos rfl, hdrop, hrdrop]

theorem not_blank {b : UInt8} (h : isVisible b = true) : isBlank b = false := by
  unfold isVisible at h
  unfold isBlank
  grind

theorem visible_ne {b : UInt8} (h : isVisible b = true) : b ≠ 0x20 ∧ b ≠ 0x0d := by
  constructor <;> rintro rfl <;> cases h

theorem base64Chars_ascii (l : List Nat) (h : ∀ n ∈ l, n < 256) :
    ∀ c ∈ Http2.base64Chars l, c.toNat < 0x80 ∧ isVisible (UInt8.ofNat c.toNat) = true := by
  have hchar {n : Nat} (hn : n < 64) := (base64Char_toNat hn).imp_right And.left
  have hpad : isVisible 0x3d = true := by decide
  induction l using Http2.base64Chars.induct with
  | case1 b₀ b₁ b₂ rest ih =>
    have h₀ := h b₀ (by simp)
    have h₁ := h b₁ (by simp)
    have h₂ := h b₂ (by simp)
    have hrest := ih fun n hn => h n (by simp [hn])
    simpa [Http2.base64Chars] using ⟨hchar (n := b₀ / 4) (by omega), hchar (n := _ + _) (by omega),
      hchar (n := b₁ % 16 * 4 + b₂ / 64) (by omega), hchar (n := b₂ % 64) (by omega), hrest⟩
  | case2 b₀ b₁ =>
    have h₀ := h b₀ (by simp)
    have h₁ := h b₁ (by simp)
    simpa [Http2.base64Chars] using ⟨hchar (n := b₀ / 4) (by omega),
      hchar (n := b₀ % 4 * 16 + b₁ / 16) (by omega), hchar (n := b₁ % 16 * 4) (by omega), hpad⟩
  | case3 b₀ =>
    have h₀ := h b₀ (by simp)
    simpa [Http2.base64Chars] using ⟨hchar (n := b₀ / 4) (by omega),
      hchar (n := b₀ % 4 * 16) (by omega), hpad⟩
  | case4 => simp [Http2.base64Chars]

theorem lt_of_mem_toNat {input : Bytes} : ∀ n ∈ input.map UInt8.toNat, n < 256 := by
  intro n hn
  obtain ⟨b, -, rfl⟩ := List.mem_map.mp hn
  exact b.toNat_lt

theorem asBytes_base64Encode (input : Bytes) :
    asBytes (Http2.base64Encode input) = encoded (input.map UInt8.toNat) := by
  rw [Http2.base64Encode, asBytes_ofList, encoded]
  have hascii := base64Chars_ascii (input.map UInt8.toNat) lt_of_mem_toNat
  generalize Http2.base64Chars (input.map UInt8.toNat) = chars at hascii
  induction chars with
  | nil => rfl
  | cons c rest ih =>
    rw [List.flatMap_cons, List.map_cons, utf8EncodeChar_ascii (hascii c (.head _)).1,
      ih fun d hd => hascii d (.tail _ hd)]
    rfl

theorem visible_base64Encode (input : Bytes) :
    ∀ b ∈ asBytes (Http2.base64Encode input), isVisible b = true := by
  rw [asBytes_base64Encode]
  intro b hb
  obtain ⟨c, hc, rfl⟩ := List.mem_map.mp hb
  exact (base64Chars_ascii _ lt_of_mem_toNat c hc).2

theorem base64Encode_ne_nil {input : Bytes} (h : input ≠ []) :
    asBytes (Http2.base64Encode input) ≠ [] := by
  rw [asBytes_base64Encode, encoded, ne_eq, List.map_eq_nil_iff]
  match input, h with
  | [a], _ => simp [Http2.base64Chars]
  | [a, b], _ => simp [Http2.base64Chars]
  | a :: b :: c :: rest, _ => simp [Http2.base64Chars]

theorem readBasic_token (input : Bytes) :
    readBasic (asBytes "Basic " ++ asBytes (Http2.base64Encode input)) = upTo 0x3a input := by
  have hscheme : asBytes "Basic " = asBytes "Basic" ++ [0x20] := by decide
  have hdecode : base64Decode (asBytes (Http2.base64Encode input)) = some input := by
    rw [asBytes_base64Encode, base64Decode_encoded _ lt_of_mem_toNat, List.map_map]
    exact congrArg some ((List.map_congr_left fun b _ => UInt8.ofNat_toNat).trans (List.map_id _))
  have hup := upTo_append (d := 0x20) (x := asBytes "Basic") (by decide)
    (asBytes (Http2.base64Encode input))
  rw [readBasic, hscheme, List.append_assoc, List.singleton_append, hup]
  simp [hdecode]

theorem credsField_plain (creds : String × String) : FieldPlain (credsField creds) := by
  have hvisible := visible_base64Encode (asBytes s!"{creds.1}:{creds.2}")
  have hne : asBytes (Http2.base64Encode (asBytes s!"{creds.1}:{creds.2}")) ≠ [] := by
    apply base64Encode_ne_nil
    rw [asBytes_colon]
    simp
  unfold credsField
  generalize asBytes (Http2.base64Encode (asBytes s!"{creds.1}:{creds.2}")) = token at hvisible hne
  refine ⟨?_, ?_, trimBlanks_padded ?_ ?_⟩
  · exact (by decide : (0x3a : UInt8) ∉ asBytes "Proxy-Authorization")
  · have hname : (0x0d : UInt8) ∉ asBytes "Proxy-Authorization" ++ 0x3a :: 0x20 :: asBytes "Basic " := by
      decide
    intro hin
    rw [fieldLine, ← List.cons_append, ← List.cons_append, ← List.append_assoc] at hin
    rcases List.mem_append.mp hin with hin | hin
    · exact hname hin
    · exact (visible_ne (hvisible _ hin)).2 rfl
  · intro b hb
    obtain rfl : b = 0x42 := (Option.some.inj hb).symm
    rfl
  · intro b hb
    rw [List.getLast?_append_of_ne_nil _ hne] at hb
    exact not_blank (hvisible b (List.mem_of_getLast? hb))

theorem connectFields_plain {hostPort : Bytes} (h : ∀ b ∈ hostPort, isVisible b = true)
    (auth : Option (String × String)) : ∀ f ∈ connectFields hostPort auth, FieldPlain f := by
  intro f hf
  rcases List.mem_cons.mp hf with rfl | hf
  · refine ⟨?_, ?_, trimBlanks_padded (fun b hb => ?_) fun b hb => ?_⟩
    · exact (by decide : (0x3a : UInt8) ∉ asBytes "Host")
    · have hname : (0x0d : UInt8) ∉ asBytes "Host" ++ [0x3a, 0x20] := by decide
      intro hin
      rw [fieldLine, List.append_cons, List.append_cons, List.append_assoc (asBytes "Host")] at hin
      rcases List.mem_append.mp hin with hin | hin
      · exact hname hin
      · exact (visible_ne (h _ hin)).2 rfl
    · exact not_blank (h b (List.mem_of_mem_head? hb))
    · exact not_blank (h b (List.mem_of_getLast? hb))
  rcases List.mem_cons.mp hf with rfl | hf
  · exact ⟨by decide, by decide, by decide⟩
  · cases auth with
    | none => cases hf
    | some creds =>
      obtain rfl := List.mem_singleton.mp hf
      exact credsField_plain creds

theorem readConnect_visible {host : String} {port : UInt16} (auth : Option (String × String))
    (h : ∀ b ∈ asBytes (authority host port.toNat), isVisible b = true) :
    readConnect (asBytes (connectHeaders host port auth)) =
      (readAuthority (asBytes (authority host port.toNat))).map fun (name, number) =>
        (⟨name, number, connectFields (asBytes (authority host port.toNat)) auth⟩, []) := by
  rw [asBytes_connectHeaders]
  generalize asBytes (authority host port.toNat) = target at h
  have hmethod := upTo_append (d := 0x20) (x := asBytes "CONNECT") (by decide)
    (target ++ 0x20 :: asBytes "HTTP/1.1")
  have htarget := upTo_append (fun hin => (visible_ne (h 0x20 hin)).1 rfl) (asBytes "HTTP/1.1")
  have hall : target.all isVisible = true := List.all_eq_true.mpr h
  have hline : (0x0d : UInt8) ∉
      asBytes "CONNECT" ++ 0x20 :: (target ++ 0x20 :: asBytes "HTTP/1.1") := by
    have hbefore : (0x0d : UInt8) ∉ asBytes "CONNECT" ++ [0x20] := by decide
    have hafter : (0x0d : UInt8) ∉ 0x20 :: asBytes "HTTP/1.1" := by decide
    intro hin
    rw [List.append_cons] at hin
    rcases List.mem_append.mp hin with hin | hin
    · exact hbefore hin
    · rcases List.mem_append.mp hin with hin | hin
      · exact (visible_ne (h _ hin)).2 rfl
      · exact hafter hin
  have hcrlf := readCrlf_append hline
    ((connectFields target auth).flatMap (fun f => fieldLine f ++ crlf) ++ crlf)
  have hfields : ∀ left, (connectFields target auth).length < left →
      readFields left ((connectFields target auth).flatMap (fun f => fieldLine f ++ crlf) ++ crlf) =
        some (connectFields target auth, []) :=
    fun left hleft => readFields_lines (connectFields_plain h auth) hleft
  have hlen : (connectFields target auth).length ≤ 3 := by cases auth <;> simp [connectFields]
  have hseven : (asBytes "CONNECT").length = 7 := by decide
  rw [readConnect, hcrlf]
  simp only [Option.bind_eq_bind, Option.bind_some, hmethod, htarget, hall]
  rw [hfields _ (by simp only [List.length_append, hseven]; omega)]
  cases readAuthority target with
  | none => rfl
  | some read => rfl

theorem sub_of_readAuthority {b host : Bytes} {port : Nat} (h : readAuthority b = some (host, port)) :
    ∀ x ∈ host, x ∈ b := by
  intro x hx
  unfold readAuthority at h
  split at h
  · rename_i rest
    have hbracket : readAuthority (0x5b :: rest) = some (host, port) := by rwa [readAuthority]
    obtain ⟨p, rfl, -, -⟩ := of_readAuthority_bracket hbracket
    exact .tail _ (List.mem_append_left _ hx)
  · split at h
    · rename_i hup
      obtain ⟨n, -, hsame⟩ := Option.map_eq_some_iff.mp h
      cases hsame
      obtain ⟨rfl, -⟩ := upTo_eq_some.mp hup
      exact List.mem_append_left _ hx
    · cases h

theorem visible_of_readConnect {b rest : Bytes} {ask : ConnectAsk}
    (h : readConnect b = some (ask, rest)) : ∀ x ∈ ask.host, isVisible x = true := by
  simp only [readConnect, Option.bind_eq_bind, Option.bind_eq_some_iff] at h
  obtain ⟨⟨line, after⟩, -, ⟨method, line'⟩, -, ⟨target, version⟩, -, h⟩ := h
  dsimp only at h
  split at h
  · cases h
  rename_i hvalid
  simp only [Option.bind_eq_some_iff] at h
  obtain ⟨⟨host, port⟩, hread, ⟨fields, rest'⟩, -, h⟩ := h
  cases h
  have hall : target.all isVisible = true := by
    by_contra hnot
    exact hvalid (.inr (.inr (by simpa using hnot)))
  exact fun x hx => List.all_eq_true.mp hall x (sub_of_readAuthority hread x hx)

/-- The brackets that `unbracket` takes off are visible. -/
theorem visible_unbracket {host : String}
    (h : ∀ b ∈ asBytes (unbracket host), isVisible b = true) :
    ∀ b ∈ asBytes host, isVisible b = true := by
  unfold unbracket at h
  split at h
  · rename_i rest hhost
    split at h
    · rename_i hlast
      obtain ⟨inner, rfl⟩ := List.getLast?_eq_some_iff.mp hlast
      rw [List.dropLast_concat] at h
      have hsplit : asBytes host = 0x5b :: (asBytes (String.ofList inner) ++ [0x5d]) := by
        rw [← String.ofList_toList (s := host), hhost, asBytes_cons (by decide), String.ofList_append,
          asBytes_append]
        rfl
      rw [hsplit]
      intro b hb
      rcases List.mem_cons.mp hb with rfl | hb
      · rfl
      · rcases List.mem_append.mp hb with hb | hb
        · exact h b hb
        · rw [List.mem_singleton.mp hb]
          rfl
    · exact h
  · exact h

theorem visible_authority {host : String} (h : ∀ b ∈ asBytes host, isVisible b = true) (port : Nat) :
    ∀ b ∈ asBytes (authority host port), isVisible b = true := by
  have hdigits : ∀ b ∈ asBytes port.repr, isVisible b = true := by
    intro b hb
    have hdigit := all_of_readNumber (readNumber_repr port) b hb
    rw [isAsciiDigit, Bool.and_eq_true, decide_eq_true_eq, decide_eq_true_eq] at hdigit
    have hlow : 0x20 < b := UInt8.lt_of_lt_of_le (by decide) hdigit.1
    have hhigh : b ≠ 0x7f := fun heq => absurd (heq ▸ hdigit.2) (by decide)
    simp [isVisible, hlow, hhigh]
  intro b hb
  unfold authority at hb
  split at hb
  · rw [asBytes_bracketed] at hb
    simp only [List.mem_cons, List.mem_append] at hb
    rcases hb with rfl | hb | rfl | rfl | hb
    · rfl
    · exact h b hb
    · rfl
    · rfl
    · exact hdigits b hb
  · rw [asBytes_bare] at hb
    rcases List.mem_append.mp hb with hb | hb
    · exact h b hb
    · rcases List.mem_cons.mp hb with rfl | hb
      · rfl
      · exact hdigits b hb

/-! ## The handshake -/

/-- The credentials of the fields are those, and no others. -/
def Presents (auth : Option (String × String)) (fields : List (Bytes × Bytes)) : Prop :=
  match auth with
  | none => fields = []
  | some (user, pass) => ∃ value, fields = [(asBytes "Proxy-Authorization", value)] ∧
    readBasic value = some (asBytes user, asBytes pass)

/-- The request of a CONNECT client, as the proxy reads it. -/
structure ConnectTold (host : String) (port : UInt16) (auth : Option (String × String))
    (request : Bytes) : Prop where
  read : ∃ hostPort fields, readConnect request = some (⟨asBytes (unbracket host), port.toNat,
    (asBytes "Host", hostPort) :: (asBytes "Proxy-Connection", asBytes "Keep-Alive") :: fields⟩, []) ∧
    readAuthority hostPort = some (asBytes (unbracket host), port.toNat) ∧ Presents auth fields

/-- The host has no delimiter of the request line or of the authority, and the user no colon. -/
structure ConnectPlain (host : String) (auth : Option (String × String)) : Prop where
  visible : ∀ b ∈ asBytes host, isVisible b = true
  brackets : Bracketed host
  user : ∀ creds, auth = some creds → ':' ∉ creds.1.toList

theorem presents_credsField {auth : Option (String × String)} :
    Presents auth (auth.map credsField).toList ↔
      ∀ creds, auth = some creds → ':' ∉ creds.1.toList := by
  cases auth with
  | none => exact iff_of_true rfl nofun
  | some creds =>
    obtain ⟨user, pass⟩ := creds
    have hread : readBasic (credsField (user, pass)).2 = some (asBytes user, asBytes pass) ↔
        ':' ∉ user.toList := by
      rw [credsField, readBasic_token, asBytes_colon, upTo_eq_some,
        ← mem_asBytes (c := ':') (by decide)]
      exact and_iff_right rfl
    constructor
    · rintro ⟨value, heq, hvalue⟩ creds hcreds
      cases hcreds
      cases heq
      exact hread.mp hvalue
    · exact fun h => ⟨_, rfl, hread.mpr (h _ rfl)⟩

theorem connectTold_iff (host : String) (port : UInt16) (auth : Option (String × String)) :
    ConnectTold host port auth (asBytes (connectHeaders host port auth)) ↔ ConnectPlain host auth := by
  constructor
  · rintro ⟨hostPort, fields, hread, -, hpresents⟩
    have hvisible := visible_unbracket (visible_of_readConnect hread)
    rw [readConnect_visible auth (visible_authority hvisible port.toNat), Option.map_eq_some_iff] at hread
    obtain ⟨⟨name, number⟩, hauthority, heq⟩ := hread
    cases heq
    exact ⟨hvisible, (readAuthority_authority host port.toNat).mp hauthority,
      presents_credsField.mp hpresents⟩
  · rintro ⟨hvisible, hbrackets, huser⟩
    have hauthority := (readAuthority_authority host port.toNat).mpr hbrackets
    refine ⟨_, _, ?_, hauthority, presents_credsField.mpr huser⟩
    rw [readConnect_visible auth (visible_authority hvisible port.toNat), hauthority]
    rfl

/-- What is read of a header block, with the line that has been begun. -/
theorem run_readHead {left : Nat} {status r : Option String} {line : Bytes} {evs : List Event}
    (h : (readHead left status line).Run evs (.ok r)) (hline : 0x0a ∉ line) :
    (∀ ev ∈ evs, Raw ev) ∧ written evs = [] ∧
      ((∀ ev ∈ evs, Sized ev) → HeaderBlock (line ++ taken evs)) := by
  induction left generalizing status line evs with
  | zero => exact absurd h Talk.run_fail
  | succ left ih =>
    simp only [readHead, Talk.run_bind_ok, Session.run_chunk] at h
    obtain ⟨got, _, after, rfl, rfl, h⟩ := h
    cases got with
    | nil => exact absurd h Talk.run_fail
    | cons b more =>
      have hone {P : Prop} (hP : more = [] → P)
          (hsized : ∀ ev ∈ [⟨.chunk 1, .ok (b :: more)⟩] ++ after, Sized ev) : P := by
        have hlen : (b :: more).length ≤ 1 := hsized _ (.head _)
        exact hP (List.length_eq_zero_iff.mp (by simpa using hlen))
      dsimp only at h
      split at h
      · rename_i hb
        subst hb
        split at h
        · rename_i hblank
          obtain ⟨rfl, -⟩ := h
          refine ⟨by simp [Raw], rfl, hone fun hmore => ⟨[], line, ?_, nofun, hline, ?_⟩⟩
          · simp [taken, hmore]
          · exact List.isEmpty_iff.mp hblank
        · rename_i hblank
          obtain ⟨hraw, hwritten, hblock⟩ := ih h List.not_mem_nil
          refine ⟨by simpa [Raw] using hraw, hwritten, fun hsized => ?_⟩
          refine hone (fun hmore => ?_) hsized
          obtain ⟨lines, last, heq, hlines, hlast, hend⟩ :=
            hblock fun ev hev => hsized ev (by simp [hev])
          refine ⟨line :: lines, last, ?_, ?_, hlast, hend⟩
          · rw [List.nil_append] at heq
            have htaken := taken_cons ⟨.chunk 1, .ok (0x0a :: more)⟩ after
            rw [List.singleton_append, htaken, heq, hmore]
            simp [taken]
          · intro l hl
            rcases List.mem_cons.mp hl with rfl | hl
            · exact ⟨hline, fun hnil => hblank (List.isEmpty_iff.mpr hnil)⟩
            · exact hlines l hl
      · rename_i hb
        have hline' : 0x0a ∉ line ++ [b] := by
          simpa [hline] using fun h => hb h.symm
        obtain ⟨hraw, hwritten, hblock⟩ := ih h hline'
        refine ⟨by simpa [Raw] using hraw, hwritten, fun hsized => ?_⟩
        refine hone (fun hmore => ?_) hsized
        have hrest := hblock fun ev hev => hsized ev (by simp [hev])
        have htaken := taken_cons ⟨.chunk 1, .ok (b :: more)⟩ after
        rw [List.singleton_append, htaken, hmore, ← List.append_assoc]
        simpa [taken] using hrest

theorem run_httpConnect {host : String} {port : UInt16} {auth : Option (String × String)}
    {evs : List Event} (h : (httpConnect host port auth).Run evs (.ok ())) :
    (∀ ev ∈ evs, Raw ev) ∧ written evs = [asBytes (connectHeaders host port auth)] ∧
      ((∀ ev ∈ evs, Sized ev) → HeaderBlock (taken evs)) := by
  simp only [httpConnect, Talk.run_bind_ok, Talk.run_ofExcept, Session.run_send] at h
  obtain ⟨_, _, _, rfl, rfl, status, head, _, rfl, hhead, rfl, -⟩ := h
  obtain ⟨hraw, hwritten, hblock⟩ := run_readHead hhead List.not_mem_nil
  refine ⟨by simpa [Raw] using hraw, ?_, fun hsized => ?_⟩
  · have hwrote := congrArg (asBytes (connectHeaders host port auth) :: ·) hwritten
    rw [List.append_nil]
    exact hwrote
  · have hrest := hblock fun ev hev => hsized ev (by simp [hev])
    rw [List.append_nil]
    exact hrest

/-- CONNECT takes the header block of the reply, and says where to go and who we are. -/
def ConnectFaithful (host : String) (port : UInt16) (auth : Option (String × String)) : Prop :=
  Tunnels (httpConnect host port auth) fun consumed asks =>
    HeaderBlock consumed ∧ ConnectTold host port auth asks.flatten

theorem connectFaithful_iff (host : String) (port : UInt16) (auth : Option (String × String)) :
    ConnectFaithful host port auth ↔ ConnectPlain host auth := by
  constructor
  · intro h
    -- a proxy that grants the request
    set w := Wire.delivering ((asBytes "HTTP/1.1 200 OK\r\n\r\n").map fun b => .data b []) with hw
    have hrun : (httpConnect host port auth).exec Wire.answer w = .ok () (Wire.delivering []) := by
      rfl
    obtain ⟨consumed, -, -, htold⟩ := h w _ hrun
    have hevents := Talk.run_events Wire.answer (httpConnect host port auth) w
    rw [hrun] at hevents
    rw [(run_httpConnect hevents).2.1, List.flatten_singleton] at htold
    exact (connectTold_iff host port auth).mp htold
  · intro h
    refine tunnels_of_run (fun evs hrun => (run_httpConnect hrun).1) fun evs hrun hsized => ?_
    obtain ⟨-, hwritten, hblock⟩ := run_httpConnect hrun
    rw [hwritten, List.flatten_singleton]
    exact ⟨hblock hsized, (connectTold_iff host port auth).mpr h⟩

/-! ## All three -/

/-- A handshake is aligned and faithful on exactly these inputs: where a string is sent up to a
delimiter, on the strings without it. -/
theorem handshakes_faithful (dns : Dns) :
    (∀ host port user remoteDns, Socks4Faithful dns host port user remoteDns ↔
      ∀ target, socks4Target dns host port remoteDns = .ok target → Socks4Plain user target) ∧
    (∀ host port auth remoteDns, Socks5Faithful dns host port auth remoteDns) ∧
    ∀ host port auth, ConnectFaithful host port auth ↔ ConnectPlain host auth :=
  ⟨socks4Faithful_iff dns, socks5Faithful dns, connectFaithful_iff⟩

/-- A proxy URL may hide the end of the user in its escapes: the proxy then goes elsewhere. -/
theorem userid_hides_hostname : ∃ p : ProxySpec,
    ProxySpec.parse "socks4a://u%00evil.example@proxy" = .ok p ∧
      (∀ dns, p.tunnel dns "good.example" 443 =
        socks4Connect dns "good.example" 443 ((p.auth.map (·.1)).getD "") true) ∧
      (∀ dns, ¬Socks4Faithful dns "good.example" 443 ((p.auth.map (·.1)).getD "") true) ∧
      readSocks4 (socks4Request 443 ((p.auth.map (·.1)).getD "") (nameFollows, some "good.example")) =
        some (⟨0x01, 443, nameFollows, asBytes "u", some (asBytes "evil.example")⟩,
          asBytes "good.example" ++ [0]) := by
  refine ⟨⟨"socks4a", some ("u\x00evil.example", ""), "proxy", 1080⟩, rfl, fun dns => rfl,
    fun dns h => ?_, rfl⟩
  have hplain := (socks4Faithful_iff dns _ _ _ _).mp h (nameFollows, some "good.example") rfl
  exact hplain.1 (by decide)

end Rsurl.Net
