import Rsurl.Http.Digest.Header
import Rsurl.Http2.ContentCoding
import Rsurl.Ascii
import Rsurl.Split

/-!
# File names a server chooses

`-J` takes the name of the file from `Content-Disposition`. The parameters of a disposition that was
written by the book are read as they are, and whatever the server writes, the name that is taken
stays in the directory and is no device.
-/

namespace Rsurl.Cli

open Text Hpack
open Http2 (toList_trim mem_of_mem_trim)
open Http.Digest (IsToken)

/-! ## Parameters -/

/-- What stands behind the next semicolon. -/
def skipSemicolon (s : List Char) : List Char := (s.dropWhile (· != ';')).tail

/-- A quoted string behind its opening quote, and what follows it. -/
def quotedValue : List Char → List Char × List Char
  | [] => ([], [])
  | ['\\'] => ([], [])
  | '\\' :: c :: rest => (c :: (quotedValue rest).1, (quotedValue rest).2)
  | '"' :: rest => ([], rest)
  | c :: rest => (c :: (quotedValue rest).1, (quotedValue rest).2)

/-- A value, and what stands behind its semicolon. -/
def dispositionValue (s : List Char) : List Char × List Char :=
  match s.dropWhile isWhitespace with
  | '"' :: rest => ((quotedValue rest).1, skipSemicolon (quotedValue rest).2)
  | rest => ((rest.takeWhile (· != ';')).rdropWhile isWhitespace, skipSemicolon rest)

theorem length_skipSemicolon_le (s : List Char) : (skipSemicolon s).length ≤ s.length := by
  rw [skipSemicolon, List.length_tail]
  exact (Nat.sub_le _ _).trans (List.length_dropWhile_le _ s)

theorem length_quotedValue_le (s : List Char) : (quotedValue s).2.length ≤ s.length := by
  fun_induction quotedValue s with
  | case1 => exact Nat.le_refl _
  | case2 => exact Nat.zero_le _
  | case3 c rest ih => exact ih.trans (by simp only [List.length_cons]; omega)
  | case4 rest => exact Nat.le_succ _
  | case5 c rest _ _ _ ih => exact ih.trans (Nat.le_succ _)

theorem length_dispositionValue_le (s : List Char) :
    (dispositionValue s).2.length ≤ s.length := by
  have hskip := List.length_dropWhile_le isWhitespace s
  rw [dispositionValue]
  split
  · next rest heq =>
    rw [heq, List.length_cons] at hskip
    exact (length_skipSemicolon_le _).trans ((length_quotedValue_le rest).trans (by omega))
  · exact (length_skipSemicolon_le _).trans hskip

/-- Behind a key there is less. -/
theorem length_lt_of_key {s : List Char}
    (hkey : trim (String.ofList (s.takeWhile (· != '='))) ≠ "") :
    (dispositionValue (s.dropWhile (· != '=')).tail).2.length < s.length := by
  have hpos : 0 < s.length := by
    rw [List.length_pos_iff]
    rintro rfl
    exact hkey rfl
  have hdrop := List.length_dropWhile_le (· != '=') s
  have hvalue := length_dispositionValue_le (s.dropWhile (· != '=')).tail
  rw [List.length_tail] at hvalue
  omega

/-- The parameters from the next key on. -/
def paramsFrom (s : List Char) : List (String × String) :=
  let key := trim (String.ofList (s.takeWhile (· != '=')))
  if hkey : key = "" then []
  else
    (key, String.ofList (dispositionValue (s.dropWhile (· != '=')).tail).1) ::
      paramsFrom (dispositionValue (s.dropWhile (· != '=')).tail).2
termination_by s.length
decreasing_by exact length_lt_of_key hkey

def contentDispositionParams (cd : String) : List (String × String) :=
  paramsFrom (skipSemicolon cd.toList)

/-! ## Names -/

/-- `u8::from_str_radix(hex, 16)` of two bytes: a sign may stand in front. -/
def hexOctet (high low : UInt8) : Option UInt8 :=
  let digits := if high = 0x2b then [low] else [high, low]
  if digits.all isAsciiHexdigit then
    some (UInt8.ofNat (digits.foldl (fun acc b => acc * 16 + hexValue b) 0))
  else none

def decodeExtBytes : Bytes → Option Bytes
  | [] => some []
  | 0x25 :: high :: low :: rest => do return (← hexOctet high low) :: (← decodeExtBytes rest)
  | b :: rest => if b = 0x25 then none else do return b :: (← decodeExtBytes rest)

/-- An ext-value: a charset, a language and percent-encoded bytes. -/
def decodeExtValue (v : String) : Option String := do
  let (charset, rest) ← splitOnce '\'' v
  let (_, encoded) ← splitOnce '\'' rest
  let bytes ← decodeExtBytes (asBytes encoded)
  if eqIgnoreAsciiCase (trim charset) "utf-8" then fromUtf8 bytes
  else if eqIgnoreAsciiCase (trim charset) "iso-8859-1" then
    some (String.ofList (bytes.map fun b => Char.ofNat b.toNat))
  else none

/-- Control characters of Unicode (`char::is_control`). -/
def isControl (c : Char) : Bool := c.toNat < 0x20 || (0x7f ≤ c.toNat && c.toNat < 0xa0)

def isPathSeparator (c : Char) : Bool := c == '/' || c == '\\' || c == ':'

/-- Whether an upper-case name is that of a Windows device. -/
def isDevice (upper : String) : Bool :=
  ["CON", "PRN", "AUX", "NUL"].contains upper ||
    ((startsWith "COM" upper || startsWith "LPT" upper) && len upper == 4 &&
      (asBytes upper)[3]?.any fun b => 0x31 ≤ b && b ≤ 0x39)

/-- The last path component of a name, if it is safe to create. -/
def safeBasename (name : String) : Option String :=
  let base := trim (String.ofList (name.toList.rtakeWhile (!isPathSeparator ·)))
  if base = "" || base = "." || base = ".." || base.toList.any isControl then none
  else
    let stem := trimEnd (String.ofList (base.toList.takeWhile (· != '.')))
    if isDevice (toAsciiUppercase stem) then none else some base

/-- The plain name and the extended one, as far as the parameters give them. -/
def chooseNames : List (String × String) → Option String × Option String →
    Option String × Option String
  | [], names => names
  | (key, value) :: params, (plain, extended) =>
    if eqIgnoreAsciiCase key "filename*" then
      chooseNames params (plain, extended.or (decodeExtValue value))
    else if eqIgnoreAsciiCase key "filename" then
      chooseNames params (plain.or (some value), extended)
    else chooseNames params (plain, extended)

/-- The first header of a name. -/
def responseHeader (headers : List Header) (name : String) : Option String :=
  (headers.find? fun h => eqIgnoreAsciiCase h.1 name).map Prod.snd

def contentDispositionFilename (headers : List Header) : Option String := do
  let cd ← responseHeader headers "content-disposition"
  let (plain, extended) := chooseNames (contentDispositionParams cd) (none, none)
  safeBasename (← extended.or plain)

/-! ## Dispositions by the book -/

/-- How the characters of a quoted string are written. -/
inductive Escaped : List Char → List Char → Prop
  | nil : Escaped [] []
  | plain {c : Char} {value written : List Char} :
      c ≠ '"' → c ≠ '\\' → Escaped value written → Escaped (c :: value) (c :: written)
  | escape (c : Char) {value written : List Char} :
      Escaped value written → Escaped (c :: value) ('\\' :: c :: written)

def Blank (s : List Char) : Prop := ∀ c ∈ s, isWhitespace c = true

/-- A value as it is, or in quotes. -/
inductive ValueText (value : String) : List Char → Prop
  | plain : (∀ c ∈ value.toList, c ≠ ';' ∧ c ≠ '"') →
      (∀ c, value.toList.head? = some c → isWhitespace c = false) →
      (∀ c, value.toList.getLast? = some c → isWhitespace c = false) →
      ValueText value value.toList
  | quoted {written : List Char} : Escaped value.toList written →
      ValueText value ('"' :: (written ++ ['"']))

/-- A name and a value, with white space between any two tokens. -/
structure ParamText (param : String × String) (text : List Char) : Prop where
  token : IsToken param.1
  written : ∃ before behind start value after : List Char, Blank before ∧ Blank behind ∧
    Blank start ∧ Blank after ∧ ValueText param.2 value ∧
    text = before ++ (param.1.toList ++ (behind ++ '=' :: (start ++ (value ++ after))))

/-- What follows a parameter: the end, or the next one. -/
def Continues (rest : List Char) : Prop := ∀ c, rest.head? = some c → c = ';'

variable {value written rest : List Char}

theorem quotedValue_cons {c : Char} (hquote : c ≠ '"') (hescape : c ≠ '\\') (s : List Char) :
    quotedValue (c :: s) = (c :: (quotedValue s).1, (quotedValue s).2) := by
  rw [quotedValue]
  · exact fun h => (hescape h).elim
  · exact fun _ _ h => (hescape h).elim
  · exact hquote

theorem quotedValue_escaped (h : Escaped value written) (rest : List Char) :
    quotedValue (written ++ '"' :: rest) = (value, rest) := by
  induction h with
  | nil => rfl
  | plain hquote hescape _ ih =>
    rw [List.cons_append, quotedValue_cons hquote hescape, ih]
  | escape c _ ih =>
    rw [List.cons_append, List.cons_append, quotedValue, ih]

theorem skipSemicolon_append {front : List Char} (hfront : ';' ∉ front) (hrest : Continues rest) :
    skipSemicolon (front ++ rest) = rest.tail := by
  rw [skipSemicolon, List.dropWhile_append_of_pos fun c hc => by
    rw [bne_iff_ne]
    rintro rfl
    exact hfront hc]
  cases rest with
  | nil => rfl
  | cons c rest =>
    obtain rfl := hrest c rfl
    rfl

theorem Blank.not_mem {s : List Char} (h : Blank s) {c : Char} (hc : isWhitespace c = false) :
    c ∉ s := fun hmem => by simp [h c hmem] at hc

theorem dropWhile_blank {s : List Char} (h : Blank s) (rest : List Char) :
    (s ++ rest).dropWhile isWhitespace = rest.dropWhile isWhitespace :=
  List.dropWhile_append_of_pos h

theorem takeWhile_semicolon {front : List Char} (hfront : ';' ∉ front) (hrest : Continues rest) :
    (front ++ rest).takeWhile (· != ';') = front := by
  rw [List.takeWhile_append_of_pos fun c hc => by
    rw [bne_iff_ne]
    rintro rfl
    exact hfront hc]
  cases rest with
  | nil => simp
  | cons c rest =>
    obtain rfl := hrest c rfl
    simp

/-- White space behind text that does not end in any. -/
theorem rdropWhile_blank {text after : List Char} (hafter : Blank after)
    (hlast : ∀ c, text.getLast? = some c → isWhitespace c = false) :
    (text ++ after).rdropWhile isWhitespace = text := by
  rw [List.rdropWhile, List.reverse_append,
    dropWhile_blank fun c hc => hafter c (List.mem_reverse.mp hc)]
  cases hrev : text.reverse with
  | nil => simpa using hrev.symm
  | cons c front =>
    have hc : isWhitespace c = false :=
      hlast c (by rw [← List.head?_reverse, hrev, List.head?_cons])
    rw [List.dropWhile_cons_of_neg (by simp [hc]), ← hrev, List.reverse_reverse]

theorem Continues.dropWhile (h : Continues rest) : rest.dropWhile isWhitespace = rest := by
  cases rest with
  | nil => rfl
  | cons c rest =>
    obtain rfl := h c rfl
    exact List.dropWhile_cons_of_neg (by decide)

theorem dispositionValue_plain {s tail : List Char} (h : s.dropWhile isWhitespace = tail)
    (hquote : tail.head? ≠ some '"') :
    dispositionValue s =
      ((tail.takeWhile (· != ';')).rdropWhile isWhitespace, skipSemicolon tail) := by
  rw [dispositionValue, h]
  split
  · exact (hquote rfl).elim
  · rfl

theorem dispositionValue_text {value : String} {start text after : List Char}
    (hstart : Blank start) (hafter : Blank after) (htext : ValueText value text)
    (hrest : Continues rest) :
    dispositionValue (start ++ (text ++ (after ++ rest))) = (value.toList, rest.tail) := by
  have hsemicolon : ';' ∉ after := hafter.not_mem (by decide)
  cases htext with
  | @quoted written hwritten =>
    rw [dispositionValue, dropWhile_blank hstart, List.cons_append,
      List.dropWhile_cons_of_neg (by decide), List.append_assoc, List.singleton_append]
    change ((quotedValue _).1, skipSemicolon (quotedValue _).2) = _
    rw [quotedValue_escaped hwritten, skipSemicolon_append hsemicolon hrest]
  | plain hchars hhead hlast =>
    have hvalue : ';' ∉ value.toList := fun h => (hchars _ h).1 rfl
    cases hlist : value.toList with
    | nil =>
      have hdrop : (start ++ ([] ++ (after ++ rest))).dropWhile isWhitespace = rest := by
        rw [dropWhile_blank hstart, List.nil_append, dropWhile_blank hafter, hrest.dropWhile]
      have hquote : rest.head? ≠ some '"' := fun h => absurd (hrest _ h) (by decide)
      have htake := takeWhile_semicolon List.not_mem_nil hrest
      have hskip := skipSemicolon_append List.not_mem_nil hrest
      rw [List.nil_append] at htake hskip
      rw [dispositionValue_plain hdrop hquote, htake, hskip]
      rfl
    | cons c value' =>
      rw [hlist] at hchars hhead hlast hvalue
      have hc := hhead c rfl
      have hdrop : (start ++ ((c :: value') ++ (after ++ rest))).dropWhile isWhitespace =
          ((c :: value') ++ after) ++ rest := by
        rw [dropWhile_blank hstart, List.cons_append, List.dropWhile_cons_of_neg (by simp [hc]),
          List.append_assoc, List.cons_append]
      have hfront : ';' ∉ (c :: value') ++ after := fun h =>
        (List.mem_append.mp h).elim hvalue hsemicolon
      have hquote : (((c :: value') ++ after) ++ rest).head? ≠ some '"' := fun h =>
        (hchars c List.mem_cons_self).2 (Option.some.inj h)
      rw [dispositionValue_plain hdrop hquote, takeWhile_semicolon hfront hrest,
        skipSemicolon_append hfront hrest, rdropWhile_blank hafter hlast]

/-- Nothing but the white space around a text is trimmed. -/
theorem trim_blank_append {before name behind : List Char} (hbefore : Blank before)
    (hbehind : Blank behind) (hname : ∀ c ∈ name, isWhitespace c = false) (hne : name ≠ []) :
    trim (String.ofList (before ++ (name ++ behind))) = String.ofList name := by
  apply String.toList_injective
  obtain ⟨c, name', rfl⟩ := List.exists_cons_of_ne_nil hne
  rw [toList_trim, String.toList_ofList, String.toList_ofList, dropWhile_blank hbefore,
    List.cons_append, List.dropWhile_cons_of_neg (by simp [hname c List.mem_cons_self]),
    ← List.cons_append]
  exact rdropWhile_blank hbehind fun c h => hname c (List.mem_of_getLast? h)

theorem visible_of_token {c : Char} (h : Http.isTokenChar c = true) :
    0x21 ≤ c.toNat ∧ c.toNat < 0x7f := by
  have hlisted : ∀ d ∈ "!#$%&'*+-.^_`|~".toList, 0x21 ≤ d.toNat ∧ d.toNat < 0x7f := by
    simp
  rw [Http.isTokenChar, Bool.or_eq_true] at h
  rcases h with h | h
  · simp only [Char.isAlphanum, Char.isAlpha, Char.isUpper, Char.isLower, Char.isDigit,
      Bool.or_eq_true, Bool.and_eq_true, decide_eq_true_eq, ge_iff_le,
      UInt32.le_iff_toNat_le] at h
    simp at h
    omega
  · exact hlisted c (List.contains_iff_mem.mp h)

theorem not_blank_of_token {c : Char} (h : Http.isTokenChar c = true) : isWhitespace c = false := by
  obtain ⟨hlow, hhigh⟩ := visible_of_token h
  simp only [isWhitespace, Bool.or_eq_false_iff, Bool.and_eq_false_iff, decide_eq_false_iff_not,
    beq_eq_false_iff_ne]
  omega

theorem paramsFrom_text {param : String × String} {text : List Char} (h : ParamText param text)
    (hrest : Continues rest) : paramsFrom (text ++ rest) = param :: paramsFrom rest.tail := by
  obtain ⟨hne, htoken⟩ := h.token
  obtain ⟨before, behind, start, value, after, hbefore, hbehind, hstart, hafter, hvalue, rfl⟩ :=
    h.written
  have hname : ∀ c ∈ param.1.toList, isWhitespace c = false :=
    fun c hc => not_blank_of_token (htoken c hc)
  have hequals : ∀ c ∈ before ++ (param.1.toList ++ behind), (c != '=') = true := by
    intro c hc
    rw [bne_iff_ne]
    rintro rfl
    rcases List.mem_append.mp hc with hc | hc
    · exact hbefore.not_mem (by decide) hc
    · rcases List.mem_append.mp hc with hc | hc
      · cases htoken _ hc
      · exact hbehind.not_mem (by decide) hc
  have hsplit : before ++ (param.1.toList ++ (behind ++ '=' :: (start ++ (value ++ after)))) ++
      rest = (before ++ (param.1.toList ++ behind)) ++
        '=' :: (start ++ (value ++ (after ++ rest))) := by
    simp only [List.append_assoc, List.cons_append]
  have hkey := trim_blank_append hbefore hbehind hname hne
  rw [String.ofList_toList] at hkey
  have htake : (before ++ (param.1.toList ++ behind) ++
      '=' :: (start ++ (value ++ (after ++ rest)))).takeWhile (· != '=') =
        before ++ (param.1.toList ++ behind) := by
    rw [List.takeWhile_append_of_pos hequals, List.takeWhile_cons_of_neg (by decide),
      List.append_nil]
  have hdrop : (before ++ (param.1.toList ++ behind) ++
      '=' :: (start ++ (value ++ (after ++ rest)))).dropWhile (· != '=') =
        '=' :: (start ++ (value ++ (after ++ rest))) := by
    rw [List.dropWhile_append_of_pos hequals, List.dropWhile_cons_of_neg (by decide)]
  have hsome : param.1 ≠ "" := fun h => hne (by rw [h]; rfl)
  rw [hsplit, paramsFrom, htake, hkey, dif_neg hsome, hdrop, List.tail_cons,
    dispositionValue_text hstart hafter hvalue hrest, String.ofList_toList]

theorem continues_flatMap (texts : List (List Char)) :
    Continues (texts.flatMap (';' :: ·)) := by
  cases texts with
  | nil => exact nofun
  | cons text texts =>
    rintro c heq
    cases heq
    rfl

theorem paramsFrom_texts {params : List (String × String)} {texts : List (List Char)}
    (h : List.Forall₂ ParamText params texts) :
    paramsFrom (texts.flatMap (';' :: ·)).tail = params := by
  induction h with
  | nil =>
    rw [List.flatMap_nil, List.tail_nil, paramsFrom]
    rfl
  | @cons param text params texts htext _ ih =>
    rw [List.flatMap_cons, List.cons_append, List.tail_cons,
      paramsFrom_text htext (continues_flatMap texts), ih]

theorem contentDispositionParams_text {kind : List Char} {params : List (String × String)}
    {texts : List (List Char)} (hkind : ';' ∉ kind) (h : List.Forall₂ ParamText params texts) :
    contentDispositionParams (String.ofList (kind ++ texts.flatMap (';' :: ·))) = params := by
  rw [contentDispositionParams, String.toList_ofList,
    skipSemicolon_append hkind (continues_flatMap texts), paramsFrom_texts h]

/-! ## Safe names -/

def devices : List String :=
  ["CON", "PRN", "AUX", "NUL", "COM1", "COM2", "COM3", "COM4", "COM5", "COM6", "COM7", "COM8",
    "COM9", "LPT1", "LPT2", "LPT3", "LPT4", "LPT5", "LPT6", "LPT7", "LPT8", "LPT9"]

/-- A device, with or without an extension and white space in front of it, in any case. -/
def NamesDevice (name : String) : Prop :=
  ∃ stem extension : List Char, name.toList = stem ++ extension ∧
    (∀ c, extension.head? = some c → c = '.') ∧
    ∃ device ∈ devices, eqIgnoreAsciiCase (trimEnd (String.ofList stem)) device = true

/-- A file that can be created in the current directory, and nowhere else. -/
structure SafeName (name : String) : Prop where
  nonempty : name ≠ ""
  notDot : name ≠ "."
  notDots : name ≠ ".."
  plain : ∀ c ∈ name.toList, c ≠ '/' ∧ c ≠ '\\' ∧ c ≠ ':' ∧ isControl c = false
  noDevice : ¬NamesDevice name

/-- The last component of a path. -/
def LastComponent (path last : List Char) : Prop :=
  ∃ dir, path = dir ++ last ∧ (∀ c, dir.getLast? = some c → c = '/' ∨ c = '\\' ∨ c = ':') ∧
    '/' ∉ last ∧ '\\' ∉ last ∧ ':' ∉ last

/-- The first extended name that can be decoded, or else the first plain one. -/
def chosenName (params : List (String × String)) : Option String :=
  ((params.filter fun p => eqIgnoreAsciiCase p.1 "filename*").findSome? (decodeExtValue ·.2)).or
    ((params.find? fun p => eqIgnoreAsciiCase p.1 "filename").map Prod.snd)

theorem isPathSeparator_iff {c : Char} :
    isPathSeparator c = true ↔ c = '/' ∨ c = '\\' ∨ c = ':' := by
  simp [isPathSeparator, or_assoc]

theorem chooseNames_eq (params : List (String × String)) (plain extended : Option String) :
    chooseNames params (plain, extended) =
      (plain.or ((params.find? fun p => eqIgnoreAsciiCase p.1 "filename").map Prod.snd),
        extended.or ((params.filter fun p => eqIgnoreAsciiCase p.1 "filename*").findSome?
          (decodeExtValue ·.2))) := by
  induction params generalizing plain extended with
  | nil => rw [chooseNames, List.find?_nil, List.filter_nil, List.findSome?_nil, Option.map_none,
      Option.or_none, Option.or_none]
  | cons param params ih =>
    obtain ⟨key, value⟩ := param
    rw [chooseNames]
    by_cases hext : eqIgnoreAsciiCase key "filename*" = true
    · have hplain : ¬eqIgnoreAsciiCase key "filename" = true := by
        rw [eqIgnoreAsciiCase_iff] at hext ⊢
        rw [hext]
        decide
      rw [if_pos hext, ih, Option.or_assoc]
      simp only [List.find?_cons, List.filter_cons, hext, hplain, if_true, List.findSome?_cons]
      cases decodeExtValue value <;> rfl
    · rw [if_neg hext]
      by_cases hplain : eqIgnoreAsciiCase key "filename" = true
      · rw [if_pos hplain, ih, Option.or_assoc]
        simp [List.find?_cons, hext, hplain]
      · rw [if_neg hplain, ih]
        simp [List.find?_cons, hext, hplain]

theorem lastComponent_rtakeWhile (path : List Char) :
    LastComponent path (path.rtakeWhile (!isPathSeparator ·)) := by
  have hlast : ∀ c ∈ path.rtakeWhile (!isPathSeparator ·), isPathSeparator c = false :=
    fun c hc => by simpa using List.mem_rtakeWhile_imp hc
  refine ⟨path.rdropWhile (!isPathSeparator ·), List.rdropWhile_append_rtakeWhile.symm, ?_,
    fun h => absurd (hlast _ h) (by decide), fun h => absurd (hlast _ h) (by decide),
    fun h => absurd (hlast _ h) (by decide)⟩
  intro c hc
  have hne : path.rdropWhile (!isPathSeparator ·) ≠ [] := by
    intro h
    rw [h] at hc
    cases hc
  have hstop := List.rdropWhile_last_not _ _ hne
  rw [List.getLast?_eq_some_getLast hne] at hc
  rw [Option.some.inj hc] at hstop
  exact isPathSeparator_iff.mp (by simpa using hstop)

theorem isDevice_of_mem : ∀ device ∈ devices, isDevice (toAsciiUppercase device) = true := by
  decide +kernel

/-- The name of a device has no full stop, so an extension begins at the first one. -/
theorem not_mem_stem {stem : List Char} {device : String} (hdevice : device ∈ devices)
    (heq : eqIgnoreAsciiCase (trimEnd (String.ofList stem)) device = true) : '.' ∉ stem := by
  intro hmem
  have hdots : ∀ device ∈ devices, '.' ∉ (toAsciiLowercase device).toList := by decide +kernel
  apply hdots device hdevice
  rw [← eqIgnoreAsciiCase_iff.mp heq, toList_toAsciiLowercase, trimEnd, trimEndMatches,
    String.toList_ofList, String.toList_ofList]
  refine List.mem_map.mpr ⟨'.', ?_, by decide⟩
  have hsplit := List.rdropWhile_append_rtakeWhile (p := isWhitespace) (l := stem)
  rw [← hsplit] at hmem
  refine (List.mem_append.mp hmem).resolve_right fun h => ?_
  exact absurd (List.mem_rtakeWhile_imp h) (by decide)

theorem safeBasename_some {name base : String} (h : safeBasename name = some base) :
    SafeName base ∧ ∃ last, LastComponent name.toList last ∧ base = trim (String.ofList last) := by
  have hlast := lastComponent_rtakeWhile name.toList
  rw [safeBasename] at h
  dsimp only at h
  generalize name.toList.rtakeWhile (!isPathSeparator ·) = last at h hlast
  split_ifs at h with hunsafe hdevice
  obtain rfl := Option.some.inj h
  simp only [Bool.or_eq_true, decide_eq_true_eq, not_or] at hunsafe
  obtain ⟨⟨⟨hempty, hdot⟩, hdots⟩, hcontrol⟩ := hunsafe
  refine ⟨⟨hempty, hdot, hdots, ?_, ?_⟩, last, hlast, rfl⟩
  · intro c hc
    have hmem : c ∈ last := by simpa using mem_of_mem_trim hc
    obtain ⟨-, -, -, hslash, hback, hcolon⟩ := hlast
    refine ⟨?_, ?_, ?_, ?_⟩
    · rintro rfl
      exact hslash hmem
    · rintro rfl
      exact hback hmem
    · rintro rfl
      exact hcolon hmem
    · by_contra h
      exact hcontrol (List.any_eq_true.mpr ⟨c, hc, Bool.eq_true_of_not_eq_false h⟩)
  · rintro ⟨stem, extension, hname, hextension, device, hmem, heq⟩
    have hdot : '.' ∉ stem := not_mem_stem hmem heq
    have hstem : (trim (String.ofList last)).toList.takeWhile (· != '.') = stem := by
      rw [hname, List.takeWhile_append_of_pos fun c hc => by
        rw [bne_iff_ne]
        rintro rfl
        exact hdot hc]
      cases extension with
      | nil => simp
      | cons c extension =>
        obtain rfl := hextension c rfl
        simp
    rw [hstem, toAsciiUppercase_eq_iff.mpr (eqIgnoreAsciiCase_iff.mp heq)] at hdevice
    exact hdevice (isDevice_of_mem device hmem)

theorem contentDispositionFilename_some {headers : List Header} {name : String}
    (h : contentDispositionFilename headers = some name) :
    SafeName name ∧ ∃ cd chosen last,
      responseHeader headers "content-disposition" = some cd ∧
      chosenName (contentDispositionParams cd) = some chosen ∧
      LastComponent chosen.toList last ∧ name = trim (String.ofList last) := by
  rw [contentDispositionFilename, Option.bind_eq_bind, Option.bind_eq_some_iff] at h
  obtain ⟨cd, hcd, h⟩ := h
  rw [chooseNames_eq] at h
  obtain ⟨chosen, hchosen, h⟩ := Option.bind_eq_some_iff.mp h
  obtain ⟨hsafe, last, hlast, hname⟩ := safeBasename_some h
  exact ⟨hsafe, cd, chosen, last, hcd, hchosen, hlast, hname⟩

/-- The parameters of a disposition are read as they were written, and what a server's disposition
is made of, the name is safe: the last component of the first name that is to be taken. -/
theorem disposition :
    (∀ (kind : List Char) (params : List (String × String)) (texts : List (List Char)),
      ';' ∉ kind → List.Forall₂ ParamText params texts →
        contentDispositionParams (String.ofList (kind ++ texts.flatMap (';' :: ·))) = params) ∧
    ∀ (headers : List Header) (name : String), contentDispositionFilename headers = some name →
      SafeName name ∧ ∃ cd chosen last,
        responseHeader headers "content-disposition" = some cd ∧
        chosenName (contentDispositionParams cd) = some chosen ∧
        LastComponent chosen.toList last ∧ name = trim (String.ofList last) :=
  ⟨fun _ _ _ hkind h => contentDispositionParams_text hkind h,
    fun _ _ h => contentDispositionFilename_some h⟩

/-- A path in quotes, one of them escaped. -/
theorem disposition_path :
    let cd := String.ofList
      ("attachment".toList ++ [" filename=\"../a\\\"b\"".toList].flatMap (';' :: ·))
    contentDispositionParams cd = [("filename", "../a\"b")] ∧
      contentDispositionFilename [("Content-Disposition", cd)] = some "a\"b" ∧
      SafeName "a\"b" := by
  intro cd
  have hescaped : Escaped "../a\"b".toList "../a\\\"b".toList :=
    .plain (by decide) (by decide) <| .plain (by decide) (by decide) <|
      .plain (by decide) (by decide) <| .plain (by decide) (by decide) <| .escape '"' <|
      .plain (by decide) (by decide) .nil
  have hblank : Blank [' '] := fun c hc => by rw [List.mem_singleton.mp hc]; rfl
  have htext : ParamText ("filename", "../a\"b") " filename=\"../a\\\"b\"".toList :=
    ⟨Http.Digest.isToken_of_valid (by decide), [' '], [], [], _, [], hblank, nofun, nofun, nofun,
      .quoted hescaped, rfl⟩
  have hparams : contentDispositionParams cd = [("filename", "../a\"b")] :=
    disposition.1 "attachment".toList _ _ (by decide) (.cons htext .nil)
  have hheader : responseHeader [("Content-Disposition", cd)] "content-disposition" = some cd := by
    have hcase : eqIgnoreAsciiCase "Content-Disposition" "content-disposition" = true := by decide
    simp [responseHeader, hcase]
  have hname : contentDispositionFilename [("Content-Disposition", cd)] = some "a\"b" := by
    rw [contentDispositionFilename, hheader, Option.bind_eq_bind, Option.bind_some, hparams]
    decide +kernel
  exact ⟨hparams, hname, (disposition.2 _ _ hname).1⟩

end Rsurl.Cli
