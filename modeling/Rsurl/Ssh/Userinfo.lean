import Rsurl.Cli.Userinfo
import Rsurl.Mail.Pop3

/-!
# Credentials of a URL

The user name and the password before a host are percent-encoded. FTP, IMAP and POP3 decode them;
SSH and HTTP take them as they stand, which is the same where nothing is encoded.
-/

namespace Rsurl.Net

open Text

/-! ## Escapes -/

/-- A `%` and two hexadecimal digits stand somewhere. -/
def HasEscape (bytes : Bytes) : Prop :=
  ∃ high low, isAsciiHexdigit high = true ∧ isAsciiHexdigit low = true ∧
    [0x25, high, low] <:+: bytes

theorem HasEscape.cons {bytes : Bytes} (h : HasEscape bytes) (b : UInt8) :
    HasEscape (b :: bytes) := by
  obtain ⟨high, low, hhigh, hlow, hwithin⟩ := h
  exact ⟨high, low, hhigh, hlow, hwithin.trans (List.suffix_cons b bytes).isInfix⟩

theorem hasEscape_cons {b : UInt8} {bytes : Bytes} (h : HasEscape (b :: bytes)) :
    (b = 0x25 ∧ ∃ high low rest, bytes = high :: low :: rest ∧ isAsciiHexdigit high = true ∧
      isAsciiHexdigit low = true) ∨ HasEscape bytes := by
  obtain ⟨high, low, hhigh, hlow, hwithin⟩ := h
  rcases List.infix_cons_iff.mp hwithin with ⟨rest, hprefix⟩ | hwithin
  · obtain ⟨hb, rfl⟩ := List.cons.inj hprefix
    exact .inl ⟨hb.symm, high, low, rest, rfl, hhigh, hlow⟩
  · exact .inr ⟨high, low, hhigh, hlow, hwithin⟩

theorem percentDecodeBytes_of_plain {bytes : Bytes} (h : ¬HasEscape bytes) :
    percentDecodeBytes bytes = bytes := by
  fun_induction percentDecodeBytes bytes with
  | case1 high low rest hhex ih =>
    rw [Bool.and_eq_true] at hhex
    exact (h ⟨high, low, hhex.1, hhex.2, (List.prefix_append [0x25, high, low] rest).isInfix⟩).elim
  | case2 high low rest hhex ih => rw [ih fun hescape => h (hescape.cons 0x25)]
  | case3 b rest hne ih => rw [ih fun hescape => h (hescape.cons b)]
  | case4 => rfl

theorem isAscii_of_hexdigit {b : UInt8} (h : isAsciiHexdigit b = true) : b < 0x80 := by
  revert h
  unfold isAsciiHexdigit isAsciiDigit
  grind

/-- An escape is read as one byte, so there are fewer ASCII bytes afterwards. -/
theorem countP_percentDecodeBytes (bytes : Bytes) :
    (percentDecodeBytes bytes).countP (· < 0x80) ≤ bytes.countP (· < 0x80) ∧
      (HasEscape bytes →
        (percentDecodeBytes bytes).countP (· < 0x80) < bytes.countP (· < 0x80)) := by
  fun_induction percentDecodeBytes bytes with
  | case1 high low rest hhex ih =>
    rw [Bool.and_eq_true] at hhex
    have hhigh := isAscii_of_hexdigit hhex.1
    have hlow := isAscii_of_hexdigit hhex.2
    have hpercent : (0x25 : UInt8) < 0x80 := by decide
    obtain ⟨hle, -⟩ := ih
    simp only [List.countP_cons, hhigh, hlow, hpercent, decide_true, if_true]
    split_ifs <;> omega
  | case2 high low rest hhex ih =>
    obtain ⟨hle, hlt⟩ := ih
    rw [List.countP_cons, List.countP_cons (l := high :: low :: rest)]
    refine ⟨by omega, fun hescape => ?_⟩
    rcases hasEscape_cons hescape with ⟨-, high', low', rest', heq, hhigh, hlow⟩ | hrest
    · cases heq
      exact (hhex (by rw [hhigh, hlow]; rfl)).elim
    · have := hlt hrest
      omega
  | case3 b rest hne ih =>
    obtain ⟨hle, hlt⟩ := ih
    rw [List.countP_cons, List.countP_cons (l := rest)]
    refine ⟨by omega, fun hescape => ?_⟩
    rcases hasEscape_cons hescape with ⟨rfl, high, low, rest', heq, -, -⟩ | hrest
    · exact (hne high low rest' rfl heq).elim
    · have := hlt hrest
      omega
  | case4 =>
    refine ⟨Nat.le_refl _, ?_⟩
    rintro ⟨high, low, -, -, hwithin⟩
    cases List.infix_nil.mp hwithin

theorem percentDecode_eq_self_iff {s : String} :
    percentDecode s = s ↔ ¬HasEscape (asBytes s) := by
  have hcount (bytes : Bytes) : countAscii (lossyChars bytes) = bytes.countP (· < 0x80) :=
    countAscii_lossyFrom begun_none bytes
  constructor
  · intro h hescape
    have hless := (countP_percentDecodeBytes (asBytes s)).2 hescape
    have hchars : lossyChars (percentDecodeBytes (asBytes s)) = lossyChars (asBytes s) := by
      have hself := (h.trans (fromUtf8Lossy_asBytes s).symm)
      exact String.ofList_injective hself
    rw [← hcount, ← hcount, hchars] at hless
    exact Nat.lt_irrefl _ hless
  · intro h
    rw [percentDecode, percentDecodeBytes_of_plain h, fromUtf8Lossy_asBytes]

end Rsurl.Net

namespace Rsurl.Ssh

open Text Net
open Http2 (Url base64Encode effectiveBasicAuth)

def splitUserinfo (ui : Option String) : Option String × Option String :=
  match ui with
  | none => (none, none)
  | some s => match splitOnce ':' s with
    | some (u, p) => (if u = "" then none else some u, if p = "" then none else some p)
    | none => (if s = "" then none else some s, none)

def userinfoPassword (url : Url) : Option String × Option String := splitUserinfo url.userinfo

/-- The user of the URL, or of the command line, or of the environment. -/
def resolveUser (url : Url) (cliUser : Option String) (var : String → Option String) :
    Except Error String :=
  match (splitUserinfo url.userinfo).1 with
  | some u => .ok u
  | none => match cliUser.filter (· ≠ "") with
    | some u => .ok u
    | none =>
      match ["USER", "USERNAME", "LOGNAME"].findSome? fun v => (var v).filter (· ≠ "") with
      | some u => .ok u
      | none => .error (.ssh "no SSH user: none in URL, -u, or $USER")

/-! ## What a server is told -/

/-- What FTP's login says of a user and a password. -/
def ftpLogin (user pass : String) : Session Unit := do
  Ftp.send s!"USER {user}"
  let (c, _) ← Ftp.readReply
  if c = 230 then return ()
  else if c = 331 then
    Ftp.send s!"PASS {pass}"
    let (c₂, m₂) ← Ftp.readReply
    if c₂ ≠ 230 ∧ c₂ ≠ 202 then Library.Talk.fail (.badResponse s!"ftp PASS: {c₂} {m₂}")
  else if c = 332 then
    Library.Talk.fail (.badResponse "ftp server requires ACCT, not supported")
  else Library.Talk.fail (.badResponse s!"ftp USER: {c}")

/-- A POP3 session with a user and a password. -/
def pop3Session (user pass : String) (url : Url) (requireTls : Bool) : Session Bytes :=
  match Mail.Pop3.parsePath url.path with
  | none => Library.Talk.fail (.invalidUrl s!"pop3 path: {url.path}")
  | some action => do
    let _ ← Session.dial url.host url.port
    if Cookies.isTls url then
      Session.handshake url.host
      let _ ← Mail.Pop3.readStatus
      Mail.Pop3.run user pass action
    else
      let _ ← Mail.Pop3.readStatus
      let upgraded ← Mail.Pop3.tryStls url.host
      if requireTls && !upgraded then
        Library.Talk.fail
          (.badResponse "pop3: TLS required (--ssl-reqd) but server did not offer STLS")
      else Mail.Pop3.run user pass action

/-- The servers of all protocols are told this user and this password. -/
structure Presents (url : Url) (user pass : String) : Prop where
  ftp : Ftp.login url.userinfo = ftpLogin user pass
  imap (n : Nat) (caps : Mail.Imap.Caps) (buf : Bytes) :
    Mail.Imap.identify url false n caps buf =
      (do return (n + 1, ← Mail.Imap.authenticate n caps user pass buf))
  pop3 (requireTls : Bool) : Mail.Pop3.fetch url requireTls = pop3Session user pass url requireTls
  ssh (cliUser : Option String) (var : String → Option String) :
    resolveUser url cliUser var = .ok user ∧ (userinfoPassword url).2 = some pass
  http (req : Http2.Request) : req.url = url → req.basicAuth = none →
    effectiveBasicAuth req = some (base64Encode (asBytes s!"{user}:{pass}"))

variable {url : Url} {u p : String}

/-- FTP, IMAP and POP3 decode. -/
theorem login_decoded (hcolon : ':' ∉ u.toList)
    (huser : firstControlByte (percentDecode u) = none)
    (hpass : firstControlByte (percentDecode p) = none) :
    Ftp.login (some (u ++ ":" ++ p)) = ftpLogin (percentDecode u) (percentDecode p) := by
  rw [Ftp.login, Ftp.splitUserinfo, Cli.splitOnce_joined hcolon, Option.getD_some]
  dsimp only
  rw [rejectCtl, huser, rejectCtl, hpass]
  rfl

theorem identify_decoded (hurl : url.userinfo = some (u ++ ":" ++ p)) (hcolon : ':' ∉ u.toList)
    (huser : firstControlByte (percentDecode u) = none)
    (hpass : firstControlByte (percentDecode p) = none) (n : Nat) (caps : Mail.Imap.Caps)
    (buf : Bytes) :
    Mail.Imap.identify url false n caps buf =
      (do return (n + 1,
        ← Mail.Imap.authenticate n caps (percentDecode u) (percentDecode p) buf)) := by
  unfold Mail.Imap.identify
  rw [hurl]
  dsimp only
  rw [Cli.splitUserinfo_joined hcolon]
  dsimp only
  rw [rejectCtl, huser, rejectCtl, hpass]
  rfl

theorem fetch_decoded (hurl : url.userinfo = some (u ++ ":" ++ p)) (hcolon : ':' ∉ u.toList)
    (requireTls : Bool) : Mail.Pop3.fetch url requireTls =
      pop3Session (percentDecode u) (percentDecode p) url requireTls := by
  rw [Mail.Pop3.fetch, hurl]
  dsimp only
  rw [Cli.splitUserinfo_joined hcolon]
  rfl

/-- SSH does not. -/
theorem userinfoPassword_joined (hurl : url.userinfo = some (u ++ ":" ++ p))
    (hcolon : ':' ∉ u.toList) (hu : u ≠ "") (hp : p ≠ "") :
    userinfoPassword url = (some u, some p) := by
  rw [userinfoPassword, hurl, splitUserinfo, Cli.splitOnce_joined hcolon]
  dsimp only
  rw [if_neg hu, if_neg hp]

theorem resolveUser_joined (hurl : url.userinfo = some (u ++ ":" ++ p))
    (hcolon : ':' ∉ u.toList) (hu : u ≠ "") (hp : p ≠ "") (cliUser : Option String)
    (var : String → Option String) : resolveUser url cliUser var = .ok u := by
  have huser := userinfoPassword_joined hurl hcolon hu hp
  rw [userinfoPassword] at huser
  rw [resolveUser, huser]

/-- Nor does HTTP. -/
theorem effectiveBasicAuth_joined {req : Http2.Request}
    (hurl : req.url.userinfo = some (u ++ ":" ++ p)) (hauth : req.basicAuth = none)
    (hcolon : ':' ∉ u.toList) (hu : u ≠ "") :
    effectiveBasicAuth req = some (base64Encode (asBytes s!"{u}:{p}")) := by
  rw [effectiveBasicAuth, hauth]
  dsimp only
  rw [hurl, Option.map_some, Cli.splitUserinfo_joined hcolon, Option.bind_eq_bind,
    Option.bind_some]
  dsimp only
  rw [if_neg fun h => hu h.1]

/-- All servers are told the decoded pair exactly if there is nothing to decode. -/
theorem presents_iff (hurl : url.userinfo = some (u ++ ":" ++ p)) (hcolon : ':' ∉ u.toList)
    (hu : u ≠ "") (hp : p ≠ "") (huser : firstControlByte (percentDecode u) = none)
    (hpass : firstControlByte (percentDecode p) = none) :
    Presents url (percentDecode u) (percentDecode p) ↔
      ¬HasEscape (asBytes u) ∧ ¬HasEscape (asBytes p) := by
  have hname := resolveUser_joined hurl hcolon hu hp
  have hpair := userinfoPassword_joined hurl hcolon hu hp
  rw [← percentDecode_eq_self_iff, ← percentDecode_eq_self_iff]
  constructor
  · intro h
    obtain ⟨hsshUser, hsshPass⟩ := h.ssh none fun _ => none
    rw [hname] at hsshUser
    rw [hpair] at hsshPass
    exact ⟨(Except.ok.inj hsshUser).symm, (Option.some.inj hsshPass).symm⟩
  · rintro ⟨hdecodeUser, hdecodePass⟩
    refine ⟨?_, identify_decoded hurl hcolon huser hpass, fetch_decoded hurl hcolon, ?_, ?_⟩
    · rw [hurl]
      exact login_decoded hcolon huser hpass
    · intro cliUser var
      rw [hname, hpair, hdecodeUser, hdecodePass]
      exact ⟨rfl, rfl⟩
    · intro req hreq hauth
      rw [hdecodeUser, hdecodePass]
      exact effectiveBasicAuth_joined (hreq ▸ hurl) hauth hcolon hu

/-- `bob:secret` is the same everywhere. -/
theorem presents_plain :
    Presents ⟨"http", some "bob:secret", "h", 80, "/"⟩ "bob" "secret" := by
  have hplain (s : String) (h : 0x25 ∉ asBytes s) : ¬HasEscape (asBytes s) := by
    rintro ⟨_, _, -, -, hwithin⟩
    exact h (hwithin.subset List.mem_cons_self)
  have hbob := hplain "bob" (by decide)
  have hsecret := hplain "secret" (by decide)
  have huser : percentDecode "bob" = "bob" := percentDecode_eq_self_iff.mpr hbob
  have hpass : percentDecode "secret" = "secret" := percentDecode_eq_self_iff.mpr hsecret
  have h := (@presents_iff ⟨"http", some "bob:secret", "h", 80, "/"⟩ "bob" "secret" rfl
    (by decide) (by decide) (by decide) (by decide) (by decide)).mpr ⟨hbob, hsecret⟩
  rwa [huser, hpass] at h

/-- The user of `a%40b:p` is `a@b`, and another one for SSH. -/
theorem not_presents : percentDecode "a%40b" = "a@b" ∧
    ¬Presents ⟨"sftp", some "a%40b:p", "h", 22, "/"⟩ (percentDecode "a%40b")
      (percentDecode "p") := by
  refine ⟨by decide, ?_⟩
  intro h
  have hname := (h.ssh none fun _ => none).1
  revert hname
  decide

end Rsurl.Ssh
