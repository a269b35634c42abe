import Rsurl.Mail.LineReader
import Rsurl.Net.Resumed
import Rsurl.StartTls.Closed

/-!
# Plaintext stays before the handshake

What a dialogue does behind its handshake is the rest of its program, and the rest does not depend on
what was said before: two connections that are the same from the handshake on are the same to it.
-/

namespace Rsurl

open Library Text Net
open Http2 (Url)

/-! ## The parts of a dialogue -/

namespace Net.Session

theorem exec_dial {host : String} {port : Nat} {w s : Wire} {peers : IpAddr × IpAddr}
    (h : (dial host port).exec Wire.answer w = .ok peers s) : w.peers = .ok peers ∧ s = w := by
  cases hp : w.peers with
  | ok p =>
    simp only [dial, Talk.request, Talk.ask_bind, Talk.exec, Wire.answer, hp, Talk.done_bind,
      Talk.ofExcept, Outcome.ok.injEq] at h
    exact ⟨congrArg _ h.1, h.2.symm⟩
  | error e =>
    simp [dial, Talk.request, Talk.exec, Wire.answer, hp, Talk.ofExcept] at h

/-- A handshake stops where it succeeds. -/
theorem resume_handshake {α : Type} {host : String} {next : Unit → Session α} {w s : Wire}
    {k : Session α} (h : (handshake host >>= next).resume Wire.answer secured w = some (k, s)) :
    k = next () ∧ s.buffer = w.buffer := by
  cases hs : w.session with
  | ok side =>
    simp only [handshake, Talk.request, Talk.ask_bind, Talk.resume, Wire.answer, hs, secured, if_true,
      Talk.done_bind, Talk.ofExcept, Option.some.injEq, Prod.mk.injEq] at h
    exact ⟨h.1.symm, by rw [← h.2]⟩
  | error e =>
    simp [handshake, Talk.request, Talk.resume, Wire.answer, hs, secured, Talk.ofExcept] at h

/-- Whether there is something in the buffer. -/
theorem resume_buffered {α : Type} {next : Bool → Session α} {w s : Wire} {k : Session α}
    (h : (buffered >>= next).resume Wire.answer secured w = some (k, s)) :
    (next !w.buffer.isEmpty).resume Wire.answer secured w = some (k, s) := h

theorem resume_unwrap {α : Type} {next : Unit → Session α} {w s : Wire} {k : Session α}
    (h : (unwrap >>= next).resume Wire.answer secured w = some (k, s)) :
    (next ()).resume Wire.answer secured { w with buffer := [] } = some (k, s) := h

end Net.Session

/-! ## FTP -/

namespace Ftp

variable {may : Op → Prop}

theorem asks_readReply (h : ∀ cap, may (.line cap)) : readReply.Asks may := until_readReply h

theorem asks_send (line : String) (h : ∀ bytes, may (.send bytes)) : (send line).Asks may :=
  until_send (h _)

/-- A command, and what follows its reply. -/
theorem asks_exchange {α : Type} {line : String} {next : Nat × String → Session α}
    (hsend : ∀ bytes, may (.send bytes)) (hline : ∀ cap, may (.line cap))
    (h : ∀ reply, (next reply).Asks may) : (send line >>= fun _ => readReply >>= next).Asks may :=
  (asks_send line hsend).bind fun _ => (asks_readReply hline).bind h

theorem asks_command (line : String) (accept : Nat → Bool) (hsend : ∀ bytes, may (.send bytes))
    (hline : ∀ cap, may (.line cap)) : (command line accept).Asks may := by
  apply asks_exchange hsend hline
  rintro ⟨c, m⟩
  dsimp only
  split
  · exact Talk.until_fail
  · exact Talk.until_done.mpr trivial

theorem asks_login (userinfo : Option String) (hsend : ∀ bytes, may (.send bytes))
    (hline : ∀ cap, may (.line cap)) : (login userinfo).Asks may := by
  apply Talk.Asks.bind (Talk.until_ofExcept fun _ _ => trivial)
  intro _
  apply Talk.Asks.bind (Talk.until_ofExcept fun _ _ => trivial)
  intro _
  apply asks_exchange hsend hline
  rintro ⟨c, m⟩
  dsimp only
  split
  · exact Talk.until_done.mpr trivial
  · split
    · apply asks_exchange hsend hline
      rintro ⟨c₂, m₂⟩
      dsimp only
      split
      · exact Talk.until_fail
      · exact Talk.until_done.mpr trivial
    · split <;> exact Talk.until_fail

theorem asks_enter (userinfo : Option String) (tls : Bool) (typecode : TypeCode)
    (hsend : ∀ bytes, may (.send bytes)) (hline : ∀ cap, may (.line cap)) :
    (enter userinfo tls typecode).Asks may := by
  apply (asks_login userinfo hsend hline).bind
  intro _
  split
  · apply (asks_command _ _ hsend hline).bind
    intro _
    apply (asks_command _ _ hsend hline).bind
    intro _
    exact asks_command _ _ hsend hline
  · exact asks_command _ _ hsend hline

theorem asks_cwdPath (create : Bool) (dirs : List String) (hsend : ∀ bytes, may (.send bytes))
    (hline : ∀ cap, may (.line cap)) : (cwdPath create dirs).Asks may := by
  induction dirs with
  | nil => exact Talk.until_done.mpr trivial
  | cons dir dirs ih =>
    apply asks_exchange hsend hline
    rintro ⟨c, m⟩
    dsimp only
    split
    · exact ih
    · split
      · apply asks_exchange hsend hline
        intro _
        apply asks_exchange hsend hline
        rintro ⟨c₂, m₂⟩
        dsimp only
        split
        · exact ih
        · exact Talk.until_fail
      · exact Talk.until_fail

theorem asks_openPassive (fallbackHost : String) (ctrlPeerIp : IpAddr) (direct useEpsv : Bool)
    (hsend : ∀ bytes, may (.send bytes)) (hline : ∀ cap, may (.line cap)) :
    (openPassive fallbackHost ctrlPeerIp direct useEpsv).Asks may := by
  have hpassive : (passive fallbackHost ctrlPeerIp direct).Asks may := by
    apply asks_exchange hsend hline
    rintro ⟨c₂, m₂⟩
    dsimp only
    split
    · exact Talk.until_fail
    · split
      · exact Talk.until_fail
      · exact Talk.until_done.mpr trivial
  unfold openPassive
  split
  · apply asks_exchange hsend hline
    rintro ⟨c, m⟩
    dsimp only
    split
    · split
      · exact Talk.until_fail
      · exact Talk.until_done.mpr trivial
    · split
      · exact hpassive
      · exact Talk.until_fail
  · exact hpassive

/-- What follows the login. -/
def afterLogin (url : Url) (cfg : NetConfig) (fp : FtpPath) (con : Control) : Session Nat := do
  cwdPath false fp.dirs
  openData url con cfg
  let n ← transfer (transferCommand fp)
  quit
  return n

theorem asks_afterLogin (url : Url) (cfg : NetConfig) (fp : FtpPath) (con : Control)
    (hmay : ∀ op, LineOp op → may op) : (afterLogin url cfg fp con).Asks may := by
  have hsend (bytes : Bytes) : may (.send bytes) := hmay _ trivial
  have hline (cap : Nat) : may (.line cap) := hmay _ trivial
  have hquit : quit.Asks may :=
    (asks_send _ hsend).attempt.bind fun _ => (asks_readReply hline).attempt.bind fun _ =>
      Talk.until_done.mpr trivial
  have hdata : (openData url con cfg).Asks may := by
    apply (asks_openPassive _ _ _ _ hsend hline).bind
    rintro ⟨dest, port⟩
    apply Talk.Asks.bind (Session.until_connect (hmay _ trivial))
    intro _
    split
    · exact Session.until_secure (hmay _ trivial)
    · exact Talk.until_done.mpr trivial
  have htransfer : (transfer (transferCommand fp)).Asks may := by
    apply asks_exchange hsend hline
    rintro ⟨c, m⟩
    dsimp only
    split
    · exact Talk.until_fail
    · apply Talk.Asks.bind (Session.until_copy (hmay _ trivial))
      intro copied
      split
      · apply (asks_readReply hline).bind
        rintro ⟨cf, mf⟩
        dsimp only
        split
        · exact Talk.until_fail
        · exact Talk.until_done.mpr trivial
      · exact Talk.until_done.mpr trivial
  apply (asks_cwdPath _ _ hsend hline).bind
  intro _
  apply hdata.bind
  intro _
  apply htransfer.bind
  intro n
  exact hquit.bind fun _ => Talk.until_done.mpr trivial

theorem plain_of_lineOp (op : Op) (h : LineOp op) : Plain op := by
  cases op with
  | handshake host => cases h
  | _ => trivial

theorem resume_authTls {host : String} {mechs : List String} {w s : Wire} {k : Session Unit}
    (h : (authTls host mechs).resume Wire.answer secured w = some (k, s)) :
    s.buffer = [] ∧ k = pure () := by
  induction mechs generalizing w with
  | nil => cases h
  | cons mech mechs ih =>
    rw [authTls] at h
    obtain ⟨_, w₁, -, h⟩ := Talk.resume_bind_asks (asks_send _ fun _ => trivial) secured_of_plain h
    obtain ⟨⟨c, m⟩, w₂, -, h⟩ :=
      Talk.resume_bind_asks (asks_readReply fun _ => trivial) secured_of_plain h
    dsimp only at h
    split at h
    · have hnext := Session.resume_buffered h
      split at hnext
      · cases hnext
      · rename_i hempty
        rw [← bind_pure (Session.handshake host)] at hnext
        obtain ⟨rfl, hbuffer⟩ := Session.resume_handshake hnext
        exact ⟨hbuffer.trans (by simpa using hempty), rfl⟩
    · exact ih h

/-- What the client does behind the handshake. -/
def rest (url : Url) (cfg : NetConfig) (fp : FtpPath) (peers : IpAddr × IpAddr) : Session Nat := do
  enter url.userinfo true fp.typecode
  afterLogin url cfg fp ⟨if cfg.direct then peers.1 else .unspecified, peers.2, true⟩

theorem resume_connectLogin {url : Url} {cfg : NetConfig} {typecode : TypeCode}
    (hscheme : url.scheme = "ftp") {w s : Wire} {k : Session Control}
    (h : (connectLogin url cfg typecode).resume Wire.answer secured w = some (k, s)) :
    s.buffer = [] ∧ ∃ peers, w.peers = .ok peers ∧ k = (do
      enter url.userinfo true typecode
      return ⟨if cfg.direct then peers.1 else .unspecified, peers.2, true⟩) := by
  have hplain : ("ftp" : String) ≠ "ftps" := by decide
  unfold connectLogin at h
  simp only [hscheme, hplain, ne_eq, not_true, false_and, if_false, decide_true, Bool.true_and,
    decide_false, Bool.false_or] at h
  obtain ⟨⟨peer, localIp⟩, w₁, hdial, h⟩ :=
    Talk.resume_bind_asks (Session.until_dial trivial) secured_of_plain h
  obtain ⟨hpeers, heq⟩ := Session.exec_dial hdial
  obtain ⟨⟨code, m⟩, w₂, -, h⟩ :=
    Talk.resume_bind_asks (asks_readReply fun _ => trivial) secured_of_plain h
  dsimp only at h
  split at h
  · cases h
  split at h
  · rename_i hreq
    rcases Talk.resume_bind h with ⟨k₀, hk₀, rfl⟩ | ⟨-, _, w₃, -, h⟩
    · obtain ⟨hbuffer, rfl⟩ := resume_authTls hk₀
      rw [hreq]
      exact ⟨hbuffer, _, hpeers, rfl⟩
    · obtain ⟨_, w₄, -, h⟩ :=
        Talk.resume_bind_asks (asks_enter _ _ _ (fun _ => trivial) fun _ => trivial) secured_of_plain h
      cases h
  · obtain ⟨_, w₃, -, h⟩ :=
      Talk.resume_bind_asks (asks_enter _ _ _ (fun _ => trivial) fun _ => trivial) secured_of_plain h
    cases h

theorem connectLogin_sealed {url : Url} (hscheme : url.scheme = "ftp") (cfg : NetConfig)
    (typecode : TypeCode) : Sealed (connectLogin url cfg typecode) := by
  refine sealed_of_rest (fun peers => ?_) fun w k s h => resume_connectLogin hscheme h
  apply (asks_enter _ _ _ (fun _ => trivial) fun _ => trivial).bind
  intro _
  exact Talk.until_done.mpr trivial

theorem fetchTo_sealed {url : Url} (hscheme : url.scheme = "ftp") (cfg : NetConfig) :
    Sealed (fetchTo url cfg) := by
  cases hpath : parseFtpPath url.path with
  | error e =>
    intro w w' _ r r' hr
    have hnone : afterHandshake (fetchTo url cfg) w = none := by
      unfold fetchTo
      rw [hpath]
      rfl
    rw [hnone] at hr
    cases hr
  | ok fp =>
    have hfetch : fetchTo url cfg = connectLogin url cfg fp.typecode >>= afterLogin url cfg fp := by
      unfold fetchTo
      rw [hpath]
      rfl
    have hasks (peers : IpAddr × IpAddr) : (rest url cfg fp peers).Asks LineOp := by
      apply (asks_enter _ _ _ (fun _ => trivial) fun _ => trivial).bind
      intro _
      exact asks_afterLogin _ _ _ _ fun _ h => h
    rw [hfetch]
    apply sealed_of_rest hasks
    intro w k s h
    rcases Talk.resume_bind h with ⟨k₀, hk₀, rfl⟩ | ⟨-, con, w₁, -, h⟩
    · obtain ⟨hbuffer, peers, hpeers, rfl⟩ := resume_connectLogin hscheme hk₀
      refine ⟨hbuffer, peers, hpeers, ?_⟩
      rw [rest, bind_assoc]
      rfl
    · rw [Talk.resume_eq_none (asks_afterLogin _ _ _ _ plain_of_lineOp) secured_of_plain] at h
      cases h

end Ftp

/-! ## SMTP -/

namespace Mail.Smtp

variable {may : Op → Prop}

theorem asks_readReply (h : ∀ cap, may (.line cap)) : readReply.Asks may := until_readReply h

theorem asks_sendLine (line : String) (h : ∀ bytes, may (.send bytes)) :
    (sendLine line).Asks may := until_sendLine (h _)

theorem asks_expect (want : Nat) (ctx : String) (h : ∀ cap, may (.line cap)) :
    (expect want ctx).Asks may := by
  apply (asks_readReply h).bind
  rintro ⟨code, text⟩
  dsimp only
  split
  · exact Talk.until_fail
  · exact Talk.until_done.mpr trivial

/-- A command whose reply must be the one. -/
theorem asks_expecting {α : Type} {line ctx : String} {want : Nat} {next : Unit → Session α}
    (hsend : ∀ bytes, may (.send bytes)) (hline : ∀ cap, may (.line cap))
    (h : ∀ r, (next r).Asks may) : (sendLine line >>= fun _ => expect want ctx >>= next).Asks may :=
  (asks_sendLine line hsend).bind fun _ => (asks_expect want ctx hline).bind h

theorem asks_ehlo (host : String) (hsend : ∀ bytes, may (.send bytes))
    (hline : ∀ cap, may (.line cap)) : (ehlo host).Asks may :=
  until_ehlo hline (hsend _) (hsend _)

theorem asks_authenticate (caps : List String) (user pass : String)
    (hsend : ∀ bytes, may (.send bytes)) (hline : ∀ cap, may (.line cap)) :
    (authenticate caps user pass).Asks may := by
  unfold authenticate
  dsimp only
  split
  · exact (asks_sendLine _ hsend).bind fun _ => asks_expect _ _ hline
  · split
    · apply asks_expecting hsend hline
      intro _
      apply asks_expecting hsend hline
      intro _
      exact (asks_sendLine _ hsend).bind fun _ => asks_expect _ _ hline
    · exact Talk.until_fail

theorem asks_recipients (rcpts : List String) (hsend : ∀ bytes, may (.send bytes))
    (hline : ∀ cap, may (.line cap)) : (recipients rcpts).Asks may := by
  induction rcpts with
  | nil => exact Talk.until_done.mpr trivial
  | cons r rcpts ih =>
    apply (asks_sendLine _ hsend).bind
    intro _
    apply (asks_readReply hline).bind
    rintro ⟨code, text⟩
    dsimp only
    split
    · exact Talk.until_fail
    · exact ih

theorem asks_submit (body : Bytes) (opts : SmtpOptions) (caps : List String)
    (hsend : ∀ bytes, may (.send bytes)) (hline : ∀ cap, may (.line cap)) :
    (submit body opts caps).Asks may := by
  have hquit : quit.Asks may :=
    (asks_sendLine _ hsend).attempt.bind fun _ => (asks_readReply hline).attempt.bind fun _ =>
      Talk.until_done.mpr trivial
  have hmessage : Talk.Asks may (do
      sendLine s!"MAIL FROM:<{opts.sender}>"
      expect 250 "MAIL FROM"
      recipients opts.rcpts
      sendLine "DATA"
      expect 354 "DATA"
      let payload := dotStuff body
      Session.send (payload ++ endOfData payload)
      expect 250 "end of DATA"
      quit) := by
    apply asks_expecting hsend hline
    intro _
    apply (asks_recipients _ hsend hline).bind
    intro _
    apply asks_expecting hsend hline
    intro _
    apply Talk.Asks.bind (Session.until_send (hsend _))
    intro _
    exact (asks_expect _ _ hline).bind fun _ => hquit
  unfold submit
  split
  · split
    · exact (asks_authenticate _ _ _ hsend hline).bind fun _ => hmessage
    · exact hmessage
  · exact hmessage

theorem resume_startTls {host : String} {w s : Wire} {k : Session (List String)}
    (h : (startTls host).resume Wire.answer secured w = some (k, s)) :
    s.buffer = [] ∧ k = ehlo host := by
  unfold startTls at h
  obtain ⟨_, w₁, -, h⟩ := Talk.resume_bind_asks (asks_sendLine _ fun _ => trivial) secured_of_plain h
  obtain ⟨⟨c, m⟩, w₂, -, h⟩ :=
    Talk.resume_bind_asks (asks_readReply fun _ => trivial) secured_of_plain h
  dsimp only at h
  split at h
  · cases h
  have hnext := Session.resume_buffered h
  obtain ⟨_, -, hnext⟩ := Talk.resume_ofExcept hnext
  obtain ⟨rfl, hbuffer⟩ := Session.resume_handshake (Session.resume_unwrap hnext)
  exact ⟨hbuffer, rfl⟩

/-- What the client does behind the handshake. -/
def rest (url : Url) (body : Bytes) (opts : SmtpOptions) : Session Unit := do
  let caps ← ehlo url.host
  submit body opts caps

theorem send_sealed {url : Url} (hscheme : url.scheme = "smtp") (body : Bytes) (opts : SmtpOptions)
    (requireTls : Bool) : Sealed (send url body opts requireTls) := by
  have hplain : ("smtp" : String) ≠ "smtps" := by decide
  have hasks (_ : IpAddr × IpAddr) : (rest url body opts).Asks LineOp :=
    (asks_ehlo _ (fun _ => trivial) fun _ => trivial).bind fun _ =>
      asks_submit _ _ _ (fun _ => trivial) fun _ => trivial
  apply sealed_of_rest hasks
  intro w k s h
  unfold send at h
  simp only [hscheme, hplain, ne_eq, not_true, false_and, if_false, not_false_eq_true, decide_true,
    Bool.not_true, Bool.true_and] at h
  obtain ⟨_, -, h⟩ := Talk.resume_ofExcept h
  obtain ⟨_, -, h⟩ := Talk.resume_ofExcept h
  split at h
  · cases h
  obtain ⟨peers, w₁, hdial, h⟩ :=
    Talk.resume_bind_asks (Session.until_dial trivial) secured_of_plain h
  have hpeers := (Session.exec_dial hdial).1
  obtain ⟨⟨code, text⟩, w₂, -, h⟩ :=
    Talk.resume_bind_asks (asks_readReply fun _ => trivial) secured_of_plain h
  dsimp only at h
  split at h
  · cases h
  obtain ⟨caps, w₃, -, h⟩ := Talk.resume_bind_asks
    (asks_ehlo _ (fun _ => trivial) fun _ => trivial) secured_of_plain h
  have hsubmit (caps : List String) : (submit body opts caps).Asks Plain :=
    asks_submit _ _ _ (fun _ => trivial) fun _ => trivial
  split at h
  · rename_i hoffered
    rw [hoffered] at h
    rcases Talk.resume_bind h with ⟨k₀, hk₀, rfl⟩ | ⟨-, caps', w₄, -, h⟩
    · obtain ⟨hbuffer, rfl⟩ := resume_startTls hk₀
      have hopen : requireTlsOk requireTls (!true) = .ok () := by simp [requireTlsOk]
      rw [hopen]
      exact ⟨hbuffer, peers, hpeers, rfl⟩
    · obtain ⟨_, -, h⟩ := Talk.resume_ofExcept h
      rw [Talk.resume_eq_none (hsubmit caps') secured_of_plain] at h
      cases h
  · obtain ⟨_, -, h⟩ := Talk.resume_ofExcept h
    rw [Talk.resume_eq_none (hsubmit caps) secured_of_plain] at h
    cases h

end Mail.Smtp

/-! ## POP3 -/

namespace Mail.Pop3

variable {may : Op → Prop}

theorem asks_readStatus (h : ∀ cap, may (.line cap)) : readStatus.Asks may := until_readStatus h

theorem asks_send (cmd : String) (h : ∀ bytes, may (.send bytes)) : (send cmd).Asks may := by
  unfold send
  split
  · exact Talk.until_fail
  · exact Session.until_send (h _)

theorem asks_readMultiline (h : ∀ cap, may (.line cap)) : readMultiline.Asks may := by
  have hfrom (left : Nat) (out : Bytes) : (readMultilineFrom left out).Asks may := by
    induction left generalizing out with
    | zero => exact Talk.until_fail
    | succ left ih =>
      rw [readMultilineFrom]
      apply Talk.Asks.bind (Session.until_line (h _))
      intro line
      split
      · exact Talk.until_fail
      · split
        · exact Talk.until_done.mpr trivial
        · split
          · exact Talk.until_fail
          · exact ih _
  rw [readMultiline]
  exact hfrom _ _

theorem asks_run (user pass : String) (action : Action) (hsend : ∀ bytes, may (.send bytes))
    (hline : ∀ cap, may (.line cap)) : (run user pass action).Asks may := by
  have hquit : quit.Asks may :=
    (asks_send _ hsend).attempt.bind fun _ => (asks_readStatus hline).attempt.bind fun _ =>
      Talk.until_done.mpr trivial
  have hperform : (perform action).Asks may := by
    cases action with
    | list =>
      apply (asks_send _ hsend).bind
      intro _
      exact (asks_readStatus hline).bind fun _ => asks_readMultiline hline
    | retr n =>
      apply (asks_send _ hsend).bind
      intro _
      apply (asks_readStatus hline).bind
      intro _
      exact (asks_readMultiline hline).bind fun _ => Talk.until_done.mpr trivial
  apply Talk.Asks.bind (Talk.until_ofExcept fun _ _ => trivial)
  intro _
  apply Talk.Asks.bind (Talk.until_ofExcept fun _ _ => trivial)
  intro _
  apply (asks_send _ hsend).bind
  intro _
  apply (asks_readStatus hline).bind
  intro _
  apply (asks_send _ hsend).bind
  intro _
  apply (asks_readStatus hline).bind
  intro _
  apply hperform.bind
  intro payload
  exact hquit.bind fun _ => Talk.until_done.mpr trivial

/-- The server has taken the upgrade, and has sent no more than that. -/
theorem exec_stlsNegotiate {w s : Wire} (h : stlsNegotiate.exec Wire.answer w = .ok true s) :
    s.buffer = [] := by
  rw [stlsNegotiate, Talk.exec_bind, Outcome.andThen_eq_ok] at h
  obtain ⟨_, w₁, -, h⟩ := h
  rw [Talk.exec_bind, Outcome.andThen_eq_ok] at h
  obtain ⟨r, w₂, -, h⟩ := h
  cases r with
  | error e => cases e <;> cases h
  | ok text =>
    cases hbuffer : w₂.buffer with
    | nil =>
      simp only [Session.buffered, Talk.request, Talk.ask_bind, Talk.exec, Wire.answer, hbuffer,
        List.isEmpty_nil, Bool.not_true, Talk.done_bind, Bool.not_false, Smtp.rejectPipelined, if_true,
        Talk.ofExcept, Talk.pure_eq, Outcome.ok.injEq, true_and] at h
      rw [← h, hbuffer]
    | cons b bytes =>
      simp [Session.buffered, Talk.request, Talk.exec, Wire.answer, hbuffer, Smtp.rejectPipelined,
        Talk.ofExcept] at h

/-- The upgrade stops at the handshake, on an empty buffer. -/
theorem resume_tryStls {host : String} {w s : Wire} {k : Session Bool}
    (h : (tryStls host).resume Wire.answer secured w = some (k, s)) :
    s.buffer = [] ∧ k = pure true := by
  have hnegotiate : stlsNegotiate.Asks Plain := by
    apply Talk.Asks.bind (Session.until_send trivial)
    intro _
    apply (asks_readStatus fun _ => trivial).attempt.bind
    intro r
    cases r with
    | ok text =>
      apply Talk.Asks.bind (Talk.until_request trivial fun _ => .inr trivial)
      intro pending
      exact Talk.Asks.bind (Talk.until_ofExcept fun _ _ => trivial) fun _ =>
        Talk.until_done.mpr trivial
    | error e => cases e <;> first | exact Talk.until_fail | exact Talk.until_done.mpr trivial
  obtain ⟨taken, w₁, hexec, h⟩ := Talk.resume_bind_asks hnegotiate secured_of_plain h
  cases taken with
  | false => cases h
  | true =>
    obtain ⟨rfl, hbuffer⟩ := Session.resume_handshake h
    exact ⟨hbuffer.trans (exec_stlsNegotiate hexec), rfl⟩

theorem fetch_sealed {url : Url} (hscheme : Cookies.isTls url = false) (requireTls : Bool) :
    Sealed (fetch url requireTls) := by
  unfold fetch
  cases url.userinfo with
  | none =>
    intro w w' _ r r' hr
    cases hr
  | some userinfo =>
    dsimp only
    generalize percentDecode (Http2.splitUserinfo userinfo).1 = user
    generalize percentDecode (Http2.splitUserinfo userinfo).2 = pass
    cases parsePath url.path with
    | none =>
      intro w w' _ r r' hr
      cases hr
    | some action =>
      have hasks (_ : IpAddr × IpAddr) : (run user pass action).Asks LineOp :=
        asks_run _ _ _ (fun _ => trivial) fun _ => trivial
      have hplain : (run user pass action).Asks Plain :=
        asks_run _ _ _ (fun _ => trivial) fun _ => trivial
      apply sealed_of_rest hasks
      intro w k s h
      obtain ⟨peers, w₁, hdial, h⟩ :=
        Talk.resume_bind_asks (Session.until_dial trivial) secured_of_plain h
      rw [hscheme] at h
      obtain ⟨_, w₂, -, h⟩ :=
        Talk.resume_bind_asks (asks_readStatus fun _ => trivial) secured_of_plain h
      rcases Talk.resume_bind h with ⟨k₀, hk₀, rfl⟩ | ⟨-, upgraded, w₃, -, h⟩
      · obtain ⟨hbuffer, rfl⟩ := resume_tryStls hk₀
        refine ⟨hbuffer, peers, (Session.exec_dial hdial).1, ?_⟩
        simp
      · split at h
        · cases h
        · rw [Talk.resume_eq_none hplain secured_of_plain] at h
          cases h

end Mail.Pop3

/-! ## IMAP -/

namespace Mail.Imap

variable {may : Op → Prop}

/-- What comes and goes on the connection, without a buffer. -/
def SideOp : Op → Prop
  | .send _ => True
  | .chunk _ => True
  | _ => False

/-- The reader asks for reads, and all else is written. -/
structure Talks (may : Op → Prop) : Prop where
  send : ∀ bytes, may (.send bytes)
  chunk : ∀ n, may (.chunk n)

theorem asks_readResponse (h : Talks may) (tag : String) (buf : Bytes) :
    (readResponse tag buf).Asks may := until_readResponse h.chunk tag buf

theorem asks_sendText (h : Talks may) (line : String) : (sendText line).Asks may :=
  Session.until_send (h.send _)

theorem asks_exchange (h : Talks may) (n : Nat) (cmd what : String) (buf : Bytes) :
    (exchange n cmd what buf).Asks may := until_exchange h.chunk (h.send _) what buf

theorem asks_requestCapability (h : Talks may) (n : Nat) (buf : Bytes) :
    (requestCapability n buf).Asks may := by
  apply (asks_exchange h _ _ _ _).bind
  rintro ⟨resp, literals, buf⟩
  exact Talk.until_done.mpr trivial

theorem asks_finish (h : Talks may) (n : Nat) (what : String) (buf : Bytes) :
    (finish n what buf).Asks may := by
  apply (asks_readResponse h _ _).bind
  rintro ⟨resp, literals, buf⟩
  apply Talk.Asks.bind (Talk.until_ofExcept fun _ _ => trivial)
  intro _
  exact Talk.until_done.mpr trivial

theorem asks_answering (h : Talks may) (n : Nat) (what line : String) (buf : Bytes)
    {next : Bytes → Session Bytes} (hnext : ∀ buf, (next buf).Asks may) :
    (answering n what line buf next).Asks may := by
  apply (asks_readResponse h _ _).bind
  rintro ⟨cont, literals, buf⟩
  dsimp only
  split
  · apply Talk.Asks.bind (Talk.until_ofExcept fun _ _ => trivial)
    intro _
    exact Talk.until_done.mpr trivial
  · exact (asks_sendText h _).bind fun _ => hnext _

theorem asks_authenticate (h : Talks may) (n : Nat) (caps : Caps) (user pass : String) (buf : Bytes) :
    (authenticate n caps user pass buf).Asks may := by
  unfold authenticate
  split
  · unfold authPlain
    dsimp only
    split
    · exact (asks_sendText h _).bind fun _ => asks_finish h _ _ _
    · exact (asks_sendText h _).bind fun _ => asks_answering h _ _ _ _ (asks_finish h _ _)
  · apply (asks_sendText h _).bind
    intro _
    apply asks_answering h
    intro buf
    exact asks_answering h _ _ _ _ (asks_finish h _ _)
  · exact (asks_sendText h _).bind fun _ => asks_finish h _ _ _
  · exact Talk.until_fail

theorem asks_request (h : Talks may) (n : Nat) (target : ImapPath) (buf : Bytes) :
    (request n target buf).Asks may := by
  have hselect (mbox : String) : (selectMailbox n mbox target.uidvalidity buf).Asks may := by
    apply (asks_exchange h _ _ _ _).bind
    rintro ⟨resp, literals, buf⟩
    apply Talk.Asks.bind (Talk.until_ofExcept fun _ _ => trivial)
    intro _
    exact Talk.until_done.mpr trivial
  have hlast {n : Nat} {cmd what : String} {buf : Bytes}
      {next : String × List Bytes × Bytes → Bytes × Nat × Bytes} :
      (exchange n cmd what buf >>= fun r => pure (next r)).Asks may :=
    (asks_exchange h _ _ _ _).bind fun _ => Talk.until_done.mpr trivial
  unfold request
  dsimp only
  split
  · exact hlast
  · apply (hselect _).bind
    intro buf
    split <;> exact hlast

theorem asks_retrieve (h : Talks may) (url : Url) (preauth : Bool) (n : Nat) (caps : Caps)
    (buf : Bytes) : (retrieve url preauth n caps buf).Asks may := by
  have hidentify : (identify url preauth n caps buf).Asks may := by
    unfold identify
    split
    · apply Talk.Asks.bind (Talk.until_ofExcept fun _ _ => trivial)
      intro _
      apply Talk.Asks.bind (Talk.until_ofExcept fun _ _ => trivial)
      intro _
      apply (asks_authenticate h _ _ _ _ _).bind
      intro buf
      exact Talk.until_done.mpr trivial
    · exact Talk.until_done.mpr trivial
  apply hidentify.bind
  rintro ⟨n, buf⟩
  apply Talk.Asks.bind (Talk.until_ofExcept fun _ _ => trivial)
  intro target
  apply Talk.Asks.bind (Talk.until_ofExcept fun _ _ => trivial)
  intro _
  apply Talk.Asks.bind (Talk.until_ofExcept fun _ _ => trivial)
  intro _
  apply Talk.Asks.bind (Talk.until_ofExcept fun _ _ => trivial)
  intro _
  apply (asks_request h _ _ _).bind
  rintro ⟨body, n, buf⟩
  have hlogout : (logout n buf).Asks may :=
    (asks_sendText h _).attempt.bind fun _ => (asks_readResponse h _ _).attempt.bind fun _ =>
      Talk.until_done.mpr trivial
  exact hlogout.bind fun _ => Talk.until_done.mpr trivial

/-- The greeting of the server. -/
def greeting (w : Wire) : String :=
  match (readResponse "*" []).exec Wire.answer w with
  | .ok (text, _) _ => text
  | .error _ _ => ""

def firstLine (text : String) : String := (lines text).head?.getD ""

/-- The greeting says that we are authenticated already. -/
def preauthorized (w : Wire) : Bool := startsWith "* PREAUTH" (firstLine (greeting w))

/-- The greeting comes with capabilities. -/
def announces (w : Wire) : Bool :=
  !(greetingCaps (greeting w) (firstLine (greeting w))).set.isEmpty

/-- What the client does behind the handshake; the tags go on from those before. -/
def rest (url : Url) (preauth announced : Bool) : Session Bytes := do
  let n := if announced then 1 else 2
  let (caps, buf) ← requestCapability (n + 1) []
  retrieve url preauth (n + 2) caps buf

theorem asks_rest (h : Talks may) (url : Url) (preauth announced : Bool) :
    (rest url preauth announced).Asks may := by
  apply (asks_requestCapability h _ _).bind
  rintro ⟨caps, buf⟩
  exact asks_retrieve h _ _ _ _ _

theorem talks_plain : Talks Plain := ⟨fun _ => trivial, fun _ => trivial⟩

theorem resume_startTls {host : String} {n : Nat} {buf : Bytes} {w s : Wire}
    {k : Session (Caps × Bytes)}
    (h : (startTls host n buf).resume Wire.answer secured w = some (k, s)) :
    k = requestCapability (n + 1) [] := by
  unfold startTls at h
  obtain ⟨⟨resp, literals, buf⟩, w₁, -, h⟩ :=
    Talk.resume_bind_asks (asks_exchange talks_plain _ _ _ _) secured_of_plain h
  obtain ⟨_, hempty, h⟩ := Talk.resume_ofExcept h
  obtain ⟨rfl, -⟩ := Session.resume_handshake h
  cases buf with
  | nil => rfl
  | cons b bytes => cases hempty

/-- The number of the next tag tells whether the greeting came with capabilities. -/
theorem exec_discover {inline : Caps} {buf : Bytes} {w s : Wire} {r : Caps × Nat × Bytes}
    (h : (discover inline buf).exec Wire.answer w = .ok r s) :
    r.2.1 = if inline.set.isEmpty then 2 else 1 := by
  unfold discover at h
  split at h
  · rename_i hempty
    rw [Talk.exec_bind, Outcome.andThen_eq_ok] at h
    obtain ⟨⟨caps, buf⟩, w₁, -, h⟩ := h
    cases h
    exact (if_pos hempty).symm
  · rename_i hempty
    cases h
    exact (if_neg hempty).symm

theorem resume_fetch {url : Url} (hscheme : url.scheme = "imap") {requireTls : Bool} {w s : Wire}
    {k : Session Bytes} (h : (fetch url requireTls).resume Wire.answer secured w = some (k, s)) :
    k = rest url (preauthorized w) (announces w) := by
  unfold fetch at h
  rw [if_pos hscheme] at h
  obtain ⟨peers, w₁, hdial, h⟩ :=
    Talk.resume_bind_asks (Session.until_dial trivial) secured_of_plain h
  rw [(Session.exec_dial hdial).2] at h
  obtain ⟨⟨text, literals, buf⟩, w₂, hgreeting, h⟩ :=
    Talk.resume_bind_asks (asks_readResponse talks_plain _ _) secured_of_plain h
  have htext : greeting w = text := by
    unfold greeting
    rw [hgreeting]
  dsimp only at h
  split at h
  · cases h
  have hdiscover : (discover (greetingCaps text (firstLine text)) buf).Asks Plain := by
    unfold discover
    split
    · exact (asks_requestCapability talks_plain _ _).bind fun _ => Talk.until_done.mpr trivial
    · exact Talk.until_done.mpr trivial
  obtain ⟨⟨caps, n, buf⟩, w₃, hexec, h⟩ := Talk.resume_bind_asks hdiscover secured_of_plain h
  have hn : n = if (greetingCaps text (firstLine text)).set.isEmpty then 2 else 1 :=
    exec_discover hexec
  have hretrieve (n : Nat) (caps : Caps) (buf : Bytes) :
      (retrieve url (startsWith "* PREAUTH" ((lines text).head?.getD "")) n caps buf).Asks Plain :=
    asks_retrieve talks_plain _ _ _ _ _
  dsimp only at h
  split at h
  · rcases Talk.resume_bind h with ⟨k₀, hk₀, rfl⟩ | ⟨-, ⟨caps', buf'⟩, w₄, -, h⟩
    · obtain rfl := resume_startTls hk₀
      have hnumber : n = if announces w then 1 else 2 := by
        rw [announces, htext, hn]
        cases (greetingCaps text (firstLine text)).set.isEmpty <;> rfl
      unfold rest
      rw [hnumber, preauthorized, htext]
      rfl
    · rw [Talk.resume_eq_none (hretrieve _ _ _) secured_of_plain] at h
      cases h
  · obtain ⟨_, -, h⟩ := Talk.resume_ofExcept h
    rw [Talk.resume_eq_none (hretrieve _ _ _) secured_of_plain] at h
    cases h

/-- A greeting that offers the upgrade. -/
structure Offers (greeting : String) : Prop where
  line : ¬crlf <:+: asBytes greeting
  untagged : asBytes ("*" ++ " ") <+: asBytes greeting
  size : extractLiteralSize greeting = none
  short : len greeting + 2 ≤ maxResponseBytes
  first : firstLine (greeting ++ "\r\n") = greeting
  ok : startsWith "* OK" greeting = true
  caps : (greetingCaps (greeting ++ "\r\n") greeting).has "STARTTLS" = true

theorem Offers.announced {greeting : String} (hg : Offers greeting) :
    (greetingCaps (greeting ++ "\r\n") greeting).set.isEmpty = false := by
  rw [List.isEmpty_eq_false_iff]
  intro hnil
  have hcaps := hg.caps
  rw [Caps.has, hnil] at hcaps
  cases hcaps

theorem Offers.exec_greeting {w : Wire} {greeting : String} {rest : Bytes} (hg : Offers greeting)
    (hahead : Ahead [] w (asBytes greeting ++ (crlf ++ rest))) : ∃ buf w', Ahead buf w' rest ∧
      (readResponse "*" []).exec Wire.answer w = .ok (greeting ++ "\r\n", [], buf) w' :=
  exec_oneLine "*" greeting ⟨by decide, by simp⟩ hg.untagged hg.line hg.size hg.short hahead

/-- A response that accepts brings the client to the handshake. -/
theorem upgraded {w : Wire} {url : Url} (hscheme : url.scheme = "imap") (requireTls : Bool) {greeting : String}
    {r : Response} {peers : IpAddr × IpAddr} {side : Side} (hpeers : w.peers = .ok peers)
    (hopen : Open (.ok side) w) (hg : Offers greeting) (hr : r.WellFormed (tag 1))
    (hmarker : r.NoFalseMarker) (hliterals : r.literals = []) (hlast : r.tagged.literals = [])
    (hroom : len r.text ≤ maxResponseBytes) (hdone : requireOk r.text (tag 1) "STARTTLS" = .ok ())
    (hahead : Ahead [] w (asBytes greeting ++ (crlf ++ (r.wire ++ [])))) :
    (afterHandshake (fetch url requireTls) w).isSome = true := by
  obtain ⟨buf, w₁, hahead₁, hgreeting⟩ := hg.exec_greeting hahead
  have hopen₁ : Open (.ok side) ((readResponse "*" []).exec Wire.answer w).state := hopen.exec
  rw [hgreeting] at hopen₁
  change Open (.ok side) w₁ at hopen₁
  obtain ⟨buf', w₂, hexchange, hopen₂, hahead₂⟩ :=
    exec_exchange hopen₁ hr hmarker hliterals hlast hroom hdone hahead₁
  obtain rfl : buf' = [] := (List.append_eq_nil_iff.mp hahead₂.2).1
  have hdial : (Session.dial url.host url.port).exec Wire.answer w = .ok peers w := by
    simp [Session.dial, Talk.request, Talk.ofExcept, Talk.exec, Wire.answer, hpeers]
  have hdiscover : discover (greetingCaps (greeting ++ "\r\n") greeting) buf =
      pure (greetingCaps (greeting ++ "\r\n") greeting, 1, buf) := by
    rw [discover, hg.announced]
    rfl
  have hfirst : (lines (greeting ++ "\r\n")).head?.getD "" = greeting := hg.first
  have hcond : ¬((!startsWith "* OK" greeting && !startsWith "* PREAUTH" greeting) = true) := by
    simp [hg.ok]
  rw [afterHandshake, Option.isSome_map, fetch, if_pos hscheme,
    resume_of_exec (Session.until_dial trivial) hdial, run,
    resume_of_exec (asks_readResponse talks_plain _ _) hgreeting]
  dsimp only
  rw [hfirst, if_neg hcond, hdiscover, pure_bind]
  dsimp only
  rw [Bool.true_and, if_pos hg.caps, startTls, bind_assoc,
    resume_of_exec (asks_exchange talks_plain _ _ _ _) hexchange]
  obtain ⟨peers₂, buffer₂, side₂, secure₂, session₂, data₂⟩ := w₂
  obtain rfl : session₂ = .ok side := hopen₂.session
  rfl

/-- What the client writes and how it ends, of two connections with the same reads behind the
handshake and greetings of the same kind. -/
theorem fetch_sealed {url : Url} (hscheme : url.scheme = "imap") (requireTls : Bool) {w w' : Wire}
    (hsession : w.session = w'.session) (hpreauth : preauthorized w = preauthorized w')
    (hannounces : announces w = announces w') {r r' : List Bytes × Except Error Bytes}
    (hr : afterHandshake (fetch url requireTls) w = some r)
    (hr' : afterHandshake (fetch url requireTls) w' = some r') : r = r' := by
  obtain ⟨⟨k, s⟩, hk, rfl⟩ := Option.map_eq_some_iff.mp hr
  obtain ⟨⟨k', s'⟩, hk', rfl⟩ := Option.map_eq_some_iff.mp hr'
  obtain rfl := resume_fetch hscheme hk
  obtain rfl := resume_fetch hscheme hk'
  have hside : s.side = s'.side :=
    Except.ok.inj ((of_resume hk).2.symm.trans (hsession.trans (of_resume hk').2))
  have hanswer (op : Op) (s u : Wire) (hop : SideOp op) (h : s.side = u.side) :
      (Wire.answer op s).1 = (Wire.answer op u).1 ∧
        (Wire.answer op s).2.side = (Wire.answer op u).2.side := by
    cases op with
    | send bytes => simp [Wire.answer, h]
    | chunk n => simp [Wire.answer, h]
    | _ => cases hop
  have hside' : Talks SideOp := ⟨fun _ => trivial, fun _ => trivial⟩
  have hasks := asks_rest hside' url (preauthorized w) (announces w)
  have hexec := Talk.exec_alike hanswer hasks hside
  dsimp only
  rw [← hpreauth, ← hannounces, hexec.1, hexec.2.result]

end Mail.Imap

/-! ## All four -/

namespace StartTls

/-- A server that greets, takes the upgrade, and is ready to log in behind it. -/
def greeter (plaintext : List String) : Wire :=
  let delivered (lines : List String) : Side :=
    ⟨lines.flatMap fun line => (asBytes line ++ crlf).map fun b => .data b [], []⟩
  ⟨.ok (.unspecified, .unspecified), [], delivered plaintext, false,
    .ok (delivered ["a002 OK", "a003 OK", "a004 OK"]), ⟨.ok (), .ok (), .ok []⟩⟩

def mailbox : Url := ⟨"imap", some "user:pass", "imap.example", 143, "/"⟩

open Mail.Imap

theorem ahead_greeter (lines : List String) :
    Ahead [] (greeter lines) (lines.flatMap fun line => asBytes line ++ crlf) := by
  have hreads : (greeter lines).side.reads =
      lines.flatMap fun line => (asBytes line ++ crlf).map fun b => .data b [] := rfl
  refine ⟨fun e => by simp [hreads], ?_⟩
  rw [hreads]
  simp [unread, List.flatMap_assoc, List.flatMap_map, Framing.Read.bytes]

theorem open_greeter (lines : List String) : Open (greeter lines).session (greeter lines) := by
  refine ⟨rfl, rfl, fun side h => ?_⟩
  obtain rfl := Except.ok.inj h
  rfl

section

variable {greeting : String} (hg : Offers greeting) (lines : List String)

include hg

theorem greeting_greeter : Mail.Imap.greeting (greeter (greeting :: lines)) = greeting ++ "\r\n" := by
  have hahead := ahead_greeter (greeting :: lines)
  rw [List.flatMap_cons, List.append_assoc] at hahead
  obtain ⟨buf, w', -, hexec⟩ := hg.exec_greeting hahead
  rw [Mail.Imap.greeting, hexec]

theorem preauthorized_greeter :
    preauthorized (greeter (greeting :: lines)) = startsWith "* PREAUTH" greeting := by
  rw [preauthorized, greeting_greeter hg, hg.first]

theorem announces_greeter : announces (greeter (greeting :: lines)) = true := by
  rw [announces, greeting_greeter hg, hg.first, hg.announced]
  rfl

end

/-- The upgrade is accepted, and something else is said before. -/
def accepting (before : List String) : Response := ⟨before.map plainLine, plainLine "a001 OK"⟩

theorem wire_accepting (before : List String) : (accepting before).wire =
    (before ++ ["a001 OK"]).flatMap fun line => asBytes line ++ crlf := by
  simp [accepting, Response.wire, Response.pieces, Response.lines, LogicalLine.pieces, plainLine,
    Piece.wire, List.flatMap_map, List.flatMap_assoc]

theorem literals_accepting (before : List String) : (accepting before).literals = [] := by
  simp [accepting, Response.literals, Response.pieces, Response.lines, LogicalLine.pieces, plainLine]

theorem greeter_upgraded {greeting : String} (hg : Offers greeting) (before : List String)
    (hr : (accepting before).WellFormed (tag 1)) (hmarker : (accepting before).NoFalseMarker)
    (hroom : len (accepting before).text ≤ maxResponseBytes)
    (hdone : requireOk (accepting before).text (tag 1) "STARTTLS" = .ok ()) :
    (afterHandshake (fetch mailbox true)
      (greeter (greeting :: (before ++ ["a001 OK"])))).isSome = true := by
  have hahead := ahead_greeter (greeting :: (before ++ ["a001 OK"]))
  rw [List.flatMap_cons, ← wire_accepting, List.append_assoc,
    ← List.append_nil (accepting before).wire] at hahead
  have hpeers : (greeter (greeting :: (before ++ ["a001 OK"]))).peers =
      .ok (.unspecified, .unspecified) := rfl
  exact upgraded rfl true hpeers (open_greeter _) hg hr hmarker (literals_accepting before) rfl hroom
    hdone hahead

theorem offers_short : Offers "* OK [CAPABILITY STARTTLS]" where
  line := by decide +kernel
  untagged := by decide +kernel
  size := extractLiteralSize_of_last "* OK [CAPABILITY STARTTLS".toList ']' (by simp) (by decide)
    (by decide) (by decide)
  short := by decide +kernel
  first := by decide +kernel
  ok := by decide +kernel
  caps := by decide +kernel

theorem offers_long : Offers "* OK [CAPABILITY STARTTLS AUTH=PLAIN] hello" where
  line := by decide +kernel
  untagged := by decide +kernel
  size := extractLiteralSize_of_last "* OK [CAPABILITY STARTTLS AUTH=PLAIN] hell".toList 'o'
    (by simp) (by decide) (by decide) (by decide)
  short := by decide +kernel
  first := by decide +kernel
  ok := by decide +kernel
  caps := by decide +kernel

end StartTls

end Rsurl
