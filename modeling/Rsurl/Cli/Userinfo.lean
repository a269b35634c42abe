import Rsurl.Download.Metadata
import Rsurl.Ftp.Client
import Rsurl.Mail.Imap
import Rsurl.Split

/-!
# Credentials of the command line

A user and a password given on the command line are written into the userinfo of the URL, and the
backend of the scheme reads them from there. An empty password is left out, which not every backend
reads back as an empty password.
-/

namespace Rsurl.Mqtt

open Text

def splitUserinfo (userinfo : Option String) : Option String × Option String :=
  match userinfo with
  | none => (none, none)
  | some s => match splitOnce ':' s with
    | some (u, p) => (some u, some p)
    | none => (some s, none)

end Rsurl.Mqtt

namespace Rsurl.Ldap

open Text Net

/-- The name and the password of the bind. -/
def bindCredentials (userinfo : Option String) : String × String :=
  match userinfo with
  | none => ("", "")
  | some ui => match splitOnce ':' ui with
    | some (u, p) => (percentDecode u, percentDecode p)
    | none => (percentDecode ui, "")

end Rsurl.Ldap

namespace Rsurl.Cli

open Text Net
open Http2 (Url)

def userinfoSchemes : List String :=
  ["ftp", "ftps", "imap", "imaps", "pop3", "pop3s", "smtp", "smtps", "ldap", "ldaps", "mqtt",
    "mqtts"]

def isAsciiAlphanumeric (b : UInt8) : Bool :=
  isAsciiDigit b || (0x41 ≤ b && b ≤ 0x5a) || (0x61 ≤ b && b ≤ 0x7a)

def isUnreserved (b : UInt8) : Bool :=
  isAsciiAlphanumeric b || b = 0x2d || b = 0x2e || b = 0x5f || b = 0x7e

/-- A byte of a credential. -/
def pctEncodeByte (b : UInt8) : List Char :=
  if isUnreserved b then [Char.ofNat b.toNat] else upperHex b

def pctEncodeUserinfo (s : String) : String := String.ofList ((asBytes s).flatMap pctEncodeByte)

/-- `basicAuth` is the user and the password of `-u`. -/
def applyCliCredentials (url : Url) (basicAuth : Option (String × String)) : Url :=
  match basicAuth with
  | none => url
  | some (user, pass) =>
    if url.scheme ∉ userinfoSchemes then url
    else
      let ui := pctEncodeUserinfo user
      let ui := if pass = "" then ui else ui ++ ":" ++ pctEncodeUserinfo pass
      { url with userinfo := some ui }

def decodedUserinfo (ui : String) : String × Option String :=
  let decode (s : String) := fromUtf8Lossy (percentDecodeBytes (asBytes s))
  match splitOnce ':' ui with
  | some (u, p) => (decode u, some (decode p))
  | none => (decode ui, none)

/-- The user and the password that the backend of the scheme logs in with. -/
def recovered (url : Url) : Option String × Option String :=
  if url.scheme ∈ ["ftp", "ftps"] then
    let (user, pass) := Ftp.splitUserinfo url.userinfo
    (some (percentDecode user), some (percentDecode pass))
  else if url.scheme ∈ ["imap", "imaps", "pop3", "pop3s"] then
    match url.userinfo with
    | some userinfo =>
      let (user, pass) := Http2.splitUserinfo userinfo
      (some (percentDecode user), some (percentDecode pass))
    | none => (none, none)
  else if url.scheme ∈ ["ldap", "ldaps"] then
    let (user, pass) := Ldap.bindCredentials url.userinfo
    (some user, some pass)
  else if url.scheme ∈ ["mqtt", "mqtts"] then
    let (user, pass) := Mqtt.splitUserinfo url.userinfo
    (user.map percentDecode, pass.map percentDecode)
  else match url.userinfo with
    | some ui =>
      let (user, pass) := decodedUserinfo ui
      (some user, pass)
    | none => (none, none)

/-! ## Escapes -/

theorem upperHex_digit : ∀ n < 16, (Nat.digitChar n).toUpper ≠ ':' ∧
    (Nat.digitChar n).toUpper.toNat < 0x80 ∧
    isAsciiHexdigit (UInt8.ofNat (Nat.digitChar n).toUpper.toNat) = true ∧
    hexValue (UInt8.ofNat (Nat.digitChar n).toUpper.toNat) = n := by
  decide

/-- An unreserved byte is a character of its own, and neither a `%` nor a `:`. -/
theorem isUnreserved_cases {b : UInt8} (h : isUnreserved b = true) :
    b.toNat < 0x80 ∧ b ≠ 0x25 ∧ b ≠ 0x3a := by
  refine ⟨?_, ?_, ?_⟩
  · by_contra hlarge
    have hle : (0x80 : UInt8) ≤ b := by
      rw [UInt8.le_iff_toNat_le]
      exact Nat.le_of_not_lt hlarge
    revert h
    unfold isUnreserved isAsciiAlphanumeric isAsciiDigit
    grind
  · rintro rfl
    exact absurd h (by decide)
  · rintro rfl
    exact absurd h (by decide)

theorem percentDecodeBytes_cons {b : UInt8} (h : b ≠ 0x25) (rest : Bytes) :
    percentDecodeBytes (b :: rest) = b :: percentDecodeBytes rest := by
  rw [percentDecodeBytes]
  rintro - - - rfl
  exact absurd rfl h

/-- An encoded byte is read back, whatever follows it. -/
theorem percentDecodeBytes_pctEncodeByte (b : UInt8) (rest : Bytes) :
    percentDecodeBytes ((pctEncodeByte b).flatMap String.utf8EncodeChar ++ rest) =
      b :: percentDecodeBytes rest := by
  unfold pctEncodeByte
  split
  · rename_i hplain
    obtain ⟨hascii, hne, -⟩ := isUnreserved_cases hplain
    have hvalue : (Char.ofNat b.toNat).toNat = b.toNat := by
      rw [Char.toNat_ofNat, if_pos (.inl (by omega))]
    rw [List.flatMap_singleton, utf8EncodeChar_ascii (by rwa [hvalue]), hvalue, UInt8.ofNat_toNat]
    exact percentDecodeBytes_cons hne rest
  · have hb := b.toNat_lt
    obtain ⟨-, hhigh, hhex, hhexValue⟩ := upperHex_digit (b.toNat / 16) (by omega)
    obtain ⟨-, hlow, hhex', hlowValue⟩ := upperHex_digit (b.toNat % 16) (by omega)
    have hpercent : String.utf8EncodeChar '%' = [0x25] := by decide
    unfold upperHex
    rw [List.flatMap_cons, List.flatMap_cons, List.flatMap_singleton, hpercent,
      utf8EncodeChar_ascii hhigh, utf8EncodeChar_ascii hlow]
    show percentDecodeBytes (0x25 :: _ :: _ :: rest) = _
    rw [percentDecodeBytes, hhex, hhex', if_pos (by rfl), hhexValue, hlowValue, Nat.div_add_mod',
      UInt8.ofNat_toNat]

theorem percentDecodeBytes_flatMap (bytes : Bytes) : percentDecodeBytes
    ((bytes.flatMap pctEncodeByte).flatMap String.utf8EncodeChar) = bytes := by
  induction bytes with
  | nil => rfl
  | cons b bytes ih =>
    rw [List.flatMap_cons, List.flatMap_append, percentDecodeBytes_pctEncodeByte, ih]

/-- The decoders read a credential back. -/
theorem percentDecode_pctEncodeUserinfo (s : String) : percentDecode (pctEncodeUserinfo s) = s := by
  rw [percentDecode, pctEncodeUserinfo, asBytes_ofList, percentDecodeBytes_flatMap,
    fromUtf8Lossy_asBytes]

/-! ## Splitting -/

theorem isUnreserved_of_isAsciiHexdigit {b : UInt8} (h : isAsciiHexdigit b = true) :
    isUnreserved b = true := by
  revert h
  unfold isUnreserved isAsciiAlphanumeric isAsciiHexdigit isAsciiDigit
  grind

/-- An encoded byte holds no reserved character but the `%`. -/
theorem not_mem_pctEncodeByte {c : Char} (hpercent : c ≠ '%')
    (hreserved : isUnreserved (UInt8.ofNat c.toNat) = false) (b : UInt8) :
    c ∉ pctEncodeByte b := by
  intro hin
  unfold pctEncodeByte at hin
  split at hin
  · rename_i hplain
    have hvalue : (Char.ofNat b.toNat).toNat = b.toNat := by
      rw [Char.toNat_ofNat, if_pos (.inl (by have := (isUnreserved_cases hplain).1; omega))]
    rw [List.mem_singleton.mp hin, hvalue, UInt8.ofNat_toNat, hplain] at hreserved
    cases hreserved
  · have hb := b.toNat_lt
    have hhigh := (upperHex_digit (b.toNat / 16) (by omega)).2.2.1
    have hlow := (upperHex_digit (b.toNat % 16) (by omega)).2.2.1
    unfold upperHex at hin
    simp only [List.mem_cons, List.not_mem_nil, or_false] at hin
    rcases hin with heq | heq | heq
    · exact hpercent heq
    · rw [heq, isUnreserved_of_isAsciiHexdigit hhigh] at hreserved
      cases hreserved
    · rw [heq, isUnreserved_of_isAsciiHexdigit hlow] at hreserved
      cases hreserved

theorem colon_not_mem_pctEncodeByte (b : UInt8) : ':' ∉ pctEncodeByte b :=
  not_mem_pctEncodeByte (by decide) (by decide) b

theorem colon_not_mem_pctEncodeUserinfo (s : String) : ':' ∉ (pctEncodeUserinfo s).toList := by
  intro hin
  rw [pctEncodeUserinfo, String.toList_ofList, List.mem_flatMap] at hin
  obtain ⟨b, -, hb⟩ := hin
  exact colon_not_mem_pctEncodeByte b hb

theorem toList_joined (u p : String) : (u ++ ":" ++ p).toList = u.toList ++ ':' :: p.toList := by
  simp

theorem splitOnce_joined {u : String} (h : ':' ∉ u.toList) (p : String) :
    splitOnce ':' (u ++ ":" ++ p) = some (u, p) :=
  splitOnce_of_toList (toList_joined u p) h

theorem splitUserinfo_joined {u : String} (h : ':' ∉ u.toList) (p : String) :
    Http2.splitUserinfo (u ++ ":" ++ p) = (u, p) := by
  unfold Http2.splitUserinfo
  rw [toList_joined, takeWhile_ne_of_not_mem h]
  dsimp only
  rw [String.ofList_toList, ← List.drop_drop, List.drop_left, List.drop_one, List.tail_cons,
    String.ofList_toList]

theorem splitUserinfo_bare {u : String} (h : ':' ∉ u.toList) :
    Http2.splitUserinfo u = (u, "") := by
  unfold Http2.splitUserinfo
  have hself : u.toList.takeWhile (· ≠ ':') = u.toList :=
    List.takeWhile_eq_self_iff.mpr fun _ hc => decide_eq_true fun heq => h (heq ▸ hc)
  rw [hself]
  dsimp only
  rw [List.drop_of_length_le (Nat.le_succ _), String.ofList_toList]

/-! ## Recovery -/

variable {url : Url}

/-- The schemes whose backend takes a password that is not there for an empty one. -/
def emptyPasswordSchemes : List String := ["imap", "imaps", "pop3", "pop3s", "ldap", "ldaps"]

theorem recovered_joined (url : Url) (user pass : String) :
    recovered { url with
      userinfo := some (pctEncodeUserinfo user ++ ":" ++ pctEncodeUserinfo pass) } =
        (some user, some pass) := by
  have huser := percentDecode_pctEncodeUserinfo user
  have hpass := percentDecode_pctEncodeUserinfo pass
  have hcolon := colon_not_mem_pctEncodeUserinfo user
  unfold recovered Ftp.splitUserinfo Ldap.bindCredentials Mqtt.splitUserinfo decodedUserinfo
  simp only [splitUserinfo_joined hcolon, splitOnce_joined hcolon, Option.getD_some,
    Option.map_some, huser, hpass]
  unfold percentDecode at huser hpass
  rw [huser, hpass]
  split_ifs <;> rfl

/-- Without a password, each backend puts its own in the place. -/
theorem recovered_bare (url : Url) (user : String) :
    recovered { url with userinfo := some (pctEncodeUserinfo user) } =
      (some user, if url.scheme ∈ ["ftp", "ftps"] then some "rsurl@"
        else if url.scheme ∈ emptyPasswordSchemes then some "" else none) := by
  have huser := percentDecode_pctEncodeUserinfo user
  have hcolon := colon_not_mem_pctEncodeUserinfo user
  have hempty : percentDecode "" = "" := by decide
  have hanonymous : percentDecode "rsurl@" = "rsurl@" := by decide
  have hschemes : url.scheme ∈ emptyPasswordSchemes ↔
      url.scheme ∈ ["imap", "imaps", "pop3", "pop3s"] ∨ url.scheme ∈ ["ldap", "ldaps"] := by
    unfold emptyPasswordSchemes
    simp only [List.mem_cons, List.not_mem_nil, or_false, or_assoc]
  unfold recovered Ftp.splitUserinfo Ldap.bindCredentials Mqtt.splitUserinfo decodedUserinfo
  simp only [splitUserinfo_bare hcolon, splitOnce_eq_none.mpr hcolon, Option.getD_none,
    Option.map_some, Option.map_none, huser, hempty, hanonymous, hschemes]
  unfold percentDecode at huser
  rw [huser]
  split_ifs <;> simp_all

theorem recovered_apply (h : url.scheme ∈ userinfoSchemes) (user pass : String) :
    recovered (applyCliCredentials url (some (user, pass))) =
      (some user, if pass ≠ "" then some pass
        else if url.scheme ∈ ["ftp", "ftps"] then some "rsurl@"
        else if url.scheme ∈ emptyPasswordSchemes then some "" else none) := by
  unfold applyCliCredentials
  dsimp only
  rw [if_neg (not_not.mpr h)]
  by_cases hpass : pass = ""
  · rw [if_pos hpass, if_neg (not_not.mpr hpass)]
    exact recovered_bare url user
  · rw [if_neg hpass, if_pos hpass]
    exact recovered_joined url user pass

/-- A backend logs in with the credentials that were given, unless the password is empty and the
backend has another one for that. -/
theorem credentials_survive (h : url.scheme ∈ userinfoSchemes) (user pass : String) :
    recovered (applyCliCredentials url (some (user, pass))) = (some user, some pass) ↔
      pass ≠ "" ∨ url.scheme ∈ emptyPasswordSchemes := by
  rw [recovered_apply h, Prod.mk.injEq, and_iff_right rfl]
  by_cases hpass : pass = ""
  · have hrsurl : "rsurl@" ≠ "" := by decide
    subst hpass
    rw [if_neg (not_not.mpr rfl)]
    unfold emptyPasswordSchemes
    by_cases hftp : url.scheme ∈ ["ftp", "ftps"]
    · rw [if_pos hftp]
      refine iff_of_false (by simp [hrsurl]) ?_
      rintro (hne | hin)
      · exact hne rfl
      · revert hftp hin
        grind
    · rw [if_neg hftp]
      split_ifs with hin
      · exact iff_of_true rfl (.inr hin)
      · exact iff_of_false nofun (not_or.mpr ⟨not_not.mpr rfl, hin⟩)
  · rw [if_pos hpass]
    exact iff_of_true rfl (.inl hpass)

theorem credentials_survive_colon :
    "imaps" ∈ userinfoSchemes ∧
      (recovered (applyCliCredentials ⟨"imaps", none, "h", 993, "/"⟩ (some ("a:b@c", ""))) =
        (some "a:b@c", some "") ↔ "" ≠ "" ∨ "imaps" ∈ emptyPasswordSchemes) :=
  ⟨by decide, @credentials_survive ⟨"imaps", none, "h", 993, "/"⟩ (by decide) "a:b@c" ""⟩

/-- An empty password of an FTP login becomes that of an anonymous one. -/
theorem not_survive_empty : ¬∀ (url : Url) (user pass : String), url.scheme ∈ userinfoSchemes →
    recovered (applyCliCredentials url (some (user, pass))) = (some user, some pass) := by
  intro h
  have hftp := h ⟨"ftp", none, "h", 21, "/"⟩ "alice" "" (by decide)
  rw [recovered_apply (by decide)] at hftp
  exact absurd hftp (by decide)

end Rsurl.Cli
