import Rsurl.Ftp.Client
import Rsurl.Mail.Imap
import Rsurl.Mail.Pop3
import Rsurl.Net.Resumed

/-!
# Upgrades that fail closed

With TLS required, no dialogue gets past its greeting on a plain connection: whatever the server
answers, it upgrades or fails.
-/

namespace Rsurl

open Library Text Net
open Http2 (Url)

/-! ## FTP -/

namespace Ftp

variable {stop : Event → Prop} {may : Op → Prop}

theorem until_readLine (h : ∀ cap, may (.line cap)) : readLine.Until stop may fun _ => True := by
  apply (Session.until_line (h _)).bind
  intro buf _
  split
  · simp
  · split <;> simp

theorem until_readMore (h : ∀ cap, may (.line cap)) (left code : Nat) (text : String) :
    (readMore left code text).Until stop may fun _ => True := by
  induction left generalizing text with
  | zero => exact Talk.until_fail
  | succ left ih =>
    rw [readMore]
    split
    · simp
    · apply (until_readLine h).bind
      intro line _
      dsimp only
      split
      · simp
      · exact ih _

theorem until_readReply (h : ∀ cap, may (.line cap)) : readReply.Until stop may fun _ => True := by
  apply (until_readLine h).bind
  intro line _
  apply Talk.Until.bind (Talk.until_ofExcept fun _ _ => trivial)
  rintro ⟨code, sep, rest⟩ _
  dsimp only
  split
  · simp
  · exact until_readMore h _ _ _

theorem until_send {line : String} (h : may (.send (asBytes line ++ crlf))) :
    (send line).Until stop may fun _ => True := by
  unfold send
  split
  · simp
  · exact Session.until_send h

/-- What is said on the control channel before the upgrade. -/
def greetings : List String := ["AUTH TLS", "AUTH SSL"]

theorem until_authTls (host : String) {mechs : List String}
    (h : ∀ mech ∈ mechs, s!"AUTH {mech}" ∈ greetings) :
    (authTls host mechs).Until Secured (Opening greetings) fun _ => False := by
  induction mechs with
  | nil => exact Talk.until_fail
  | cons mech mechs ih =>
    rw [authTls]
    apply (until_send ⟨_, h mech (.head _), rfl⟩).bind
    intro _ _
    apply (until_readReply fun _ => trivial).bind
    rintro ⟨c, m⟩ _
    dsimp only
    split
    · apply Talk.Until.bind (Talk.until_request trivial fun _ => .inr trivial)
      intro pending _
      split
      · simp
      · exact Session.until_handshake trivial
    · exact ih fun mech' hmech => h mech' (.tail _ hmech)

/-- The login is behind the upgrade. -/
theorem until_connectLogin {url : Url} {cfg : NetConfig} (hscheme : url.scheme = "ftp")
    (hreq : cfg.requireTls = true) (typecode : TypeCode) :
    (connectLogin url cfg typecode).Until Secured (Opening greetings) fun _ => False := by
  have hplain : ("ftp" : String) ≠ "ftps" := by decide
  unfold connectLogin
  simp only [hscheme, hreq, hplain, ne_eq, not_true, false_and, if_false, decide_true, Bool.and_self,
    if_true]
  apply (Session.until_dial trivial).bind
  rintro ⟨peer, localIp⟩ _
  apply (until_readReply fun _ => trivial).bind
  rintro ⟨code, m⟩ _
  dsimp only
  split
  · simp
  · exact (until_authTls url.host (by decide)).bind fun _ (h : False) => h.elim

end Ftp

/-! ## SMTP -/

namespace Mail.Smtp

variable {stop : Event → Prop} {may : Op → Prop}

theorem until_readReplyFrom (h : ∀ cap, may (.line cap)) (left total : Nat) (text : String) :
    (readReplyFrom left total text).Until stop may fun _ => True := by
  induction left generalizing total text with
  | zero => exact Talk.until_fail
  | succ left ih =>
    rw [readReplyFrom]
    apply (Session.until_line (h _)).bind
    intro raw _
    split
    · simp
    · split
      · simp
      · apply Talk.Until.bind (Talk.until_ofExcept fun _ _ => trivial)
        rintro ⟨code, rest, more⟩ _
        dsimp only
        split
        · exact ih _ _
        · simp

theorem until_readReply (h : ∀ cap, may (.line cap)) : readReply.Until stop may fun _ => True :=
  until_readReplyFrom h _ _ _

theorem until_sendLine {line : String} (h : may (.send (asBytes line ++ crlf))) :
    (sendLine line).Until stop may fun _ => True := by
  unfold sendLine
  split
  · simp
  · exact Session.until_send h

theorem until_ehlo {host : String} (hline : ∀ cap, may (.line cap))
    (hehlo : may (.send (asBytes s!"EHLO {host}" ++ crlf)))
    (hhelo : may (.send (asBytes s!"HELO {host}" ++ crlf))) :
    (ehlo host).Until stop may fun _ => True := by
  apply (until_sendLine hehlo).bind
  intro _ _
  apply (until_readReply hline).bind
  rintro ⟨code, text⟩ _
  dsimp only
  split
  · apply (until_sendLine hhelo).bind
    intro _ _
    apply (until_readReply hline).bind
    rintro ⟨c₂, m₂⟩ _
    dsimp only
    split <;> simp
  · simp

def greetings (host : String) : List String := [s!"EHLO {host}", s!"HELO {host}", "STARTTLS"]

theorem until_startTls (host : String) :
    (startTls host).Until Secured (Opening (greetings host)) fun _ => False := by
  apply (until_sendLine ⟨"STARTTLS", by simp [greetings], rfl⟩).bind
  intro _ _
  apply (until_readReply fun _ => trivial).bind
  rintro ⟨c, m⟩ _
  dsimp only
  split
  · simp
  · apply Talk.Until.bind (Talk.until_request trivial fun _ => .inr trivial)
    intro pending _
    apply Talk.Until.bind (Talk.until_ofExcept fun _ _ => trivial)
    intro _ _
    apply Talk.Until.bind (Talk.until_request trivial fun _ => .inr trivial)
    intro _ _
    exact Talk.Until.bind (Session.until_handshake trivial) fun _ (h : False) => h.elim

/-- Credentials, envelope and message are behind the upgrade. -/
theorem until_send {url : Url} (hscheme : url.scheme = "smtp") (body : Bytes) (opts : SmtpOptions) :
    (send url body opts true).Until Secured (Opening (greetings url.host)) fun _ => False := by
  have hplain : ("smtp" : String) ≠ "smtps" := by decide
  unfold send
  simp only [hscheme, hplain, ne_eq, not_true, false_and, if_false, not_false_eq_true, decide_true,
    Bool.not_true, Bool.true_and]
  apply Talk.Until.bind (Talk.until_ofExcept fun _ _ => trivial)
  intro _ _
  apply Talk.Until.bind (Talk.until_ofExcept fun _ _ => trivial)
  intro _ _
  split
  · simp
  apply (Session.until_dial trivial).bind
  intro _ _
  apply (until_readReply fun _ => trivial).bind
  rintro ⟨code, text⟩ _
  dsimp only
  split
  · simp
  apply (until_ehlo (fun _ => trivial) ⟨_, by simp [greetings], rfl⟩
    ⟨_, by simp [greetings], rfl⟩).bind
  intro caps _
  split
  · exact (until_startTls url.host).bind fun _ (h : False) => h.elim
  · rename_i hnone
    rw [Bool.eq_false_iff.mpr hnone]
    exact Talk.until_fail

end Mail.Smtp

/-! ## POP3 -/

namespace Mail.Pop3

variable {stop : Event → Prop} {may : Op → Prop}

theorem until_readStatus (h : ∀ cap, may (.line cap)) : readStatus.Until stop may fun _ => True := by
  have hline : readStatusLine.Until stop may fun _ => True := by
    apply (Session.until_line (h _)).bind
    intro buf _
    split
    · simp
    · split <;> simp
  exact hline.bind fun _ _ => Talk.until_ofExcept fun _ _ => trivial

def greetings : List String := ["STLS"]

/-- If there was no upgrade, the answer says so. -/
theorem until_tryStls (host : String) :
    (tryStls host).Until Secured (Opening greetings) (· = false) := by
  have hnegotiate : stlsNegotiate.Until Secured (Opening greetings) fun _ => True := by
    apply (Session.until_send ⟨"STLS", .head _, rfl⟩).bind
    intro _ _
    apply (until_readStatus fun _ => trivial).attempt.bind
    intro r _
    cases r with
    | ok text =>
      apply Talk.Until.bind (Talk.until_request trivial fun _ => .inr trivial)
      intro pending _
      exact Talk.Until.bind (Talk.until_ofExcept fun _ _ => trivial) fun _ _ => Talk.until_done.mpr trivial
    | error e => cases e <;> simp
  apply hnegotiate.bind
  intro upgraded _
  split
  · exact Talk.Until.bind (Session.until_handshake trivial) fun _ (h : False) => h.elim
  · exact Talk.until_done.mpr rfl

theorem until_fetch {url : Url} (hscheme : Cookies.isTls url = false) :
    (fetch url true).Until Secured (Opening greetings) fun _ => False := by
  unfold fetch
  split
  · simp
  dsimp only
  split
  · simp
  apply (Session.until_dial trivial).bind
  intro _ _
  rw [hscheme]
  apply (until_readStatus fun _ => trivial).bind
  intro _ _
  apply (until_tryStls url.host).bind
  rintro _ rfl
  simp

end Mail.Pop3

/-! ## IMAP -/

namespace Mail.Imap

variable {stop : Event → Prop} {may : Op → Prop}

theorem until_readLine (h : ∀ n, may (.chunk n)) (buf : Bytes) :
    (readLine buf).Until stop may fun _ => True := by
  have hfrom (left : Nat) (buf : Bytes) : (readLineFrom left buf).Until stop may fun _ => True := by
    induction left generalizing buf with
    | zero => exact Talk.until_fail
    | succ left ih =>
      rw [readLineFrom]
      split
      · simp
      · split
        · simp
        · apply (Session.until_chunk (h _)).bind
          intro got _
          split
          · split <;> simp
          · exact ih _
  rw [readLine]
  exact hfrom _ buf

theorem until_readExact (h : ∀ n, may (.chunk n)) (n : Nat) (buf : Bytes) :
    (readExact n buf).Until stop may fun _ => True := by
  have hfrom (left : Nat) (out : Bytes) :
      (readExactFrom left n out).Until stop may fun _ => True := by
    induction left generalizing out with
    | zero => exact Talk.until_fail
    | succ left ih =>
      rw [readExactFrom]
      split
      · apply (Session.until_chunk (h _)).bind
        intro got _
        split
        · simp
        · exact ih _
      · simp
  exact (hfrom _ _).bind fun _ _ => Talk.until_done.mpr trivial

theorem until_readResponse (h : ∀ n, may (.chunk n)) (tag : String) (buf : Bytes) :
    (readResponse tag buf).Until stop may fun _ => True := by
  have hfrom (left : Nat) (text : String) (literals : List Bytes) (buf : Bytes) :
      (readResponseFrom tag left text literals buf).Until stop may fun _ => True := by
    induction left generalizing text literals buf with
    | zero => exact Talk.until_fail
    | succ left ih =>
      refine (until_readLine h buf).bind ?_
      rintro ⟨line, buf⟩ _
      dsimp only
      split
      · simp
      · split
        · split
          · simp
          · split
            · simp
            · exact (until_readExact h _ _).bind fun _ _ => ih _ _ _
        · split
          · simp
          · split
            · simp
            · exact ih _ _ _
  rw [readResponse]
  exact hfrom _ _ _ buf

theorem until_exchange {n : Nat} {cmd : String} (h : ∀ n, may (.chunk n))
    (hcmd : may (.send (asBytes s!"{tag n} {cmd}" ++ crlf))) (what : String) (buf : Bytes) :
    (exchange n cmd what buf).Until stop may fun _ => True := by
  apply (Session.until_send hcmd).bind
  intro _ _
  apply (until_readResponse h _ buf).bind
  rintro ⟨resp, literals, buf⟩ _
  apply Talk.Until.bind (Talk.until_ofExcept fun _ _ => trivial)
  intro _ _
  simp

def greetings : List String := ["a001 CAPABILITY", "a001 STARTTLS", "a002 STARTTLS"]

theorem until_startTls (host : String) {n : Nat} (hn : n = 1 ∨ n = 2) (buf : Bytes) :
    (startTls host n buf).Until Secured (Opening greetings) fun _ => False := by
  have hcmd : tag n ++ " " ++ "STARTTLS" ∈ greetings := by
    rcases hn with rfl | rfl <;> decide
  have hexchange : (exchange n "STARTTLS" "STARTTLS" buf).Until Secured (Opening greetings)
      fun _ => True := until_exchange (fun _ => trivial) ⟨_, hcmd, rfl⟩ _ buf
  apply hexchange.bind
  rintro ⟨resp, literals, buf⟩ _
  dsimp only
  apply Talk.Until.bind (Talk.until_ofExcept fun _ _ => trivial)
  intro _ _
  exact Talk.Until.bind (Session.until_handshake trivial) fun _ (h : False) => h.elim

theorem until_discover (inline : Caps) (buf : Bytes) :
    (discover inline buf).Until Secured (Opening greetings) fun r => r.2.1 = 1 ∨ r.2.1 = 2 := by
  unfold discover
  split
  · have hrequest : (requestCapability 1 buf).Until Secured (Opening greetings) fun _ => True := by
      have hcmd : tag 1 ++ " " ++ "CAPABILITY" ∈ greetings := by decide
      exact (until_exchange (fun _ => trivial) ⟨_, hcmd, rfl⟩ _ buf).bind fun _ _ =>
        Talk.until_done.mpr trivial
    apply hrequest.bind
    rintro ⟨caps, buf⟩ _
    exact Talk.until_done.mpr (.inr rfl)
  · exact Talk.until_done.mpr (.inl rfl)

theorem until_run (url : Url) :
    (run true url true).Until Secured (Opening greetings) fun _ => False := by
  apply (until_readResponse (fun _ => trivial) "*" []).bind
  rintro ⟨greeting, literals, buf⟩ _
  dsimp only
  split
  · simp
  apply (until_discover (greetingCaps greeting ((lines greeting).head?.getD "")) buf).bind
  rintro ⟨caps, n, buf⟩ hn
  dsimp only
  split
  · exact (until_startTls url.host hn buf).bind fun _ (h : False) => h.elim
  · exact Talk.until_fail

theorem until_fetch {url : Url} (hscheme : url.scheme = "imap") :
    (fetch url true).Until Secured (Opening greetings) fun _ => False := by
  unfold fetch
  rw [if_pos hscheme]
  exact (Session.until_dial trivial).bind fun _ _ => until_run url

end Mail.Imap

/-! ## All four -/

namespace StartTls

/-- With TLS required, an upgrade that fails leaves nothing on the plain connection but the greeting. -/
theorem fails_closed (cfg : Ftp.NetConfig) (hreq : cfg.requireTls = true) :
    (∀ (url : Url) (typecode : Ftp.TypeCode), url.scheme = "ftp" →
      FailsClosed Ftp.greetings (Ftp.connectLogin url cfg typecode)) ∧
    (∀ (url : Url) (body : Bytes) (opts : Mail.Smtp.SmtpOptions), url.scheme = "smtp" →
      FailsClosed (Mail.Smtp.greetings url.host) (Mail.Smtp.send url body opts cfg.requireTls)) ∧
    (∀ url : Url, Cookies.isTls url = false →
      FailsClosed Mail.Pop3.greetings (Mail.Pop3.fetch url cfg.requireTls)) ∧
    ∀ url : Url, url.scheme = "imap" →
      FailsClosed Mail.Imap.greetings (Mail.Imap.fetch url cfg.requireTls) := by
  rw [hreq]
  refine ⟨fun url typecode h => ?_, fun url body opts h => ?_, fun url h => ?_, fun url h => ?_⟩
  · exact failsClosed_of_until (Ftp.until_connectLogin h hreq typecode)
  · exact failsClosed_of_until (Mail.Smtp.until_send h body opts)
  · exact failsClosed_of_until (Mail.Pop3.until_fetch h)
  · exact failsClosed_of_until (Mail.Imap.until_fetch h)

theorem fails_closed_required :
    ∃ cfg : Ftp.NetConfig, cfg.requireTls = true ∧
      FailsClosed Ftp.greetings (Ftp.connectLogin ⟨"ftp", none, "ftp.example", 21, "/file"⟩ cfg .image) :=
  ⟨{ requireTls := true }, rfl, (fails_closed { requireTls := true } rfl).1 _ .image rfl⟩

end StartTls

end Rsurl
