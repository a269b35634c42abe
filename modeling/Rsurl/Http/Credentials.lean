import Rsurl.Http.Redirect

/-!
# Credentials across redirects

Which credentials the requests of a transfer carry once a redirect has left the origin it started
on. A hop has moved when some request before it went to another origin; a hop that has moved and was
not given a fresh answer to a challenge carries nothing the caller supplied.
-/

namespace Rsurl.Http

open Text Hpack Library
open Http2 (Url Response)

variable {J : Type}

/-! ## Bare requests -/

/-- None of the caller's credentials are left. -/
structure Request.Bare (req : Request) : Prop where
  basicAuth : req.basicAuth = none
  headers : ∀ h ∈ req.headers, isAuthorization h = false ∧ isCookie h = false

theorem dropCredentials_bare (req : Request) : (dropCredentials req).Bare where
  basicAuth := rfl
  headers h hmem := by simpa [dropCredentials] using (List.mem_filter.mp hmem).2

theorem Request.Bare.setReferer {req : Request} (hb : req.Bare) (prev : Url) :
    (setReferer req prev).Bare where
  basicAuth := hb.basicAuth
  headers h hmem := by
    rcases List.mem_append.mp hmem with hmem | hmem
    · exact hb.headers h (List.mem_of_mem_filter hmem)
    · cases List.mem_singleton.mp hmem
      simp only [isAuthorization, isCookie]
      decide

theorem Request.Bare.asGet {req : Request} (hb : req.Bare) : (asGet req).Bare where
  basicAuth := hb.basicAuth
  headers h hmem := hb.headers h (List.mem_of_mem_filter hmem)

/-- A redirect leaves a bare request bare, and strips one that leaves its origin. -/
theorem nextRequest_bare {req : Request} {url : Url} (status : Nat)
    (ht : req.redirectTrusted = false) (hb : sameOrigin url req.url = true → req.Bare) :
    (nextRequest req url status).Bare := by
  have hget : ∀ r : Request, r.Bare → (if toGet req status then asGet r else r).Bare := by
    intro r hr
    split
    · exact hr.asGet
    · exact hr
  refine hget _ ?_
  cases hsame : sameOrigin url req.url with
  | false =>
    simp only [ht, Bool.not_false, Bool.and_self, if_true]
    exact dropCredentials_bare _
  | true =>
    have hurl : ({ req with url } : Request).Bare := ⟨(hb hsame).basicAuth, (hb hsame).headers⟩
    simp only [Bool.not_true, Bool.false_and, Bool.false_eq_true, if_false]
    split
    · exact hurl.setReferer req.url
    · exact hurl

namespace Hop

/-! ## What a hop sends -/

/-- A request before this one went to another origin. -/
def Moved (s : Hop J) : Prop := ∃ r ∈ s.sent, sameOrigin r.url s.req.url = false

/-- The request of a hop carries nothing the caller supplied: what cookies it has are the jar's. -/
structure Private (w : World J) (s : Hop J) : Prop where
  basicAuth : (s.snapshot w).2.basicAuth = none
  authorization : ∀ h ∈ (s.snapshot w).2.headers, isAuthorization h = false
  cookie : ∀ h ∈ (s.snapshot w).2.headers, isCookie h → ∃ jar, s.jar = some jar ∧
    s.useJar = true ∧ w.cookieHeader (w.purgeExpired jar) s.req.url = some h.2

/-- The hop's request is sent. -/
def goes (w : World J) (s : Hop J) : Bool := (w.stopped s.sent).isNone

/-- The hop is served a challenge, and its request is sent again with the answer. -/
def Reanswers (w : World J) (s : Hop J) : Prop :=
  s.goes w = true ∧ w.stopped (s.dispatched w).sent = none ∧
    ∃ resp value, w.serve (s.dispatched w).sent = .ok resp ∧
      ((s.dispatched w).ingest w resp).digestAnswer w resp = some value

@[simp] theorem snapshot_url (w : World J) (s : Hop J) : (s.snapshot w).2.url = s.req.url := by
  unfold snapshot
  split
  · rfl
  · split <;> rfl

@[simp] theorem snapshot_basicAuth (w : World J) (s : Hop J) :
    (s.snapshot w).2.basicAuth = s.req.basicAuth := by
  unfold snapshot
  split
  · rfl
  · split <;> rfl

/-- A header that is sent is the request's own or the jar's cookie. -/
theorem snapshot_headers {w : World J} {s : Hop J} {h : Header}
    (hmem : h ∈ (s.snapshot w).2.headers) :
    h ∈ s.req.headers ∨ ∃ jar val, s.jar = some jar ∧ s.useJar = true ∧
      w.cookieHeader (w.purgeExpired jar) s.req.url = some val ∧ h = ("Cookie", val) := by
  unfold snapshot at hmem
  split at hmem
  · exact .inl hmem
  · rename_i jar hjar
    split at hmem
    · rename_i huse
      unfold attachJarCookies at hmem
      simp only at hmem
      split at hmem
      · exact .inl (List.mem_of_mem_filter hmem)
      · rename_i val hval
        rcases List.mem_append.mp hmem with hmem | hmem
        · exact .inl (List.mem_of_mem_filter hmem)
        · exact .inr ⟨jar, val, hjar, huse, hval, List.mem_singleton.mp hmem⟩
    · exact .inl hmem

/-- Only cookies are taken out of a request before it is sent. -/
theorem mem_snapshot_headers {w : World J} {s : Hop J} {h : Header} (hmem : h ∈ s.req.headers)
    (hc : isCookie h = false) : h ∈ (s.snapshot w).2.headers := by
  have hfilter : h ∈ s.req.headers.filter fun h => !isCookie h := by
    simp [List.mem_filter, hmem, hc]
  unfold snapshot
  split
  · exact hmem
  · split
    · unfold attachJarCookies
      simp only
      split
      · exact hfilter
      · exact List.mem_append_left _ hfilter
    · exact hmem

theorem private_of_bare {w : World J} {s : Hop J} (hb : s.req.Bare) : s.Private w where
  basicAuth := by simpa using hb.basicAuth
  authorization h hmem := by
    rcases snapshot_headers hmem with hmem | ⟨jar, val, -, -, -, rfl⟩
    · exact (hb.headers h hmem).1
    · simp only [isAuthorization]
      decide
  cookie h hmem hc := by
    rcases snapshot_headers hmem with hmem | ⟨jar, val, hjar, huse, hval, rfl⟩
    · simp [(hb.headers h hmem).2] at hc
    · exact ⟨jar, hjar, huse, hval⟩

/-- An answer puts an `Authorization` header on the request. -/
theorem answered_not_private (w : World J) (s : Hop J) (value : String) :
    ¬(s.answered value).Private w := by
  intro hp
  have hmem : (("Authorization", value) : Header) ∈ (s.answered value).req.headers := by
    simp [answered]
  have := hp.authorization _ (mem_snapshot_headers hmem (by simp only [isCookie]; decide))
  simp only [isAuthorization] at this
  exact absurd this (by decide)

/-! ## Over a run -/

theorem sameOrigin_iff {a b : Url} :
    sameOrigin a b = true ↔ a.host = b.host ∧ a.port = b.port ∧ a.scheme = b.scheme := by
  simp [sameOrigin, and_assoc]

/-- After another request to the same origin, a hop has moved only if it had before. -/
theorem Moved.of_sent {s s' : Hop J} {r : Request} (hm : s'.Moved) (hsent : s'.sent = s.sent ++ [r])
    (hr : r.url = s.req.url) (hsame : sameOrigin s'.req.url s.req.url = true) : s.Moved := by
  obtain ⟨p, hp, hne⟩ := hm
  rw [hsent] at hp
  rw [sameOrigin_iff] at hsame
  rcases List.mem_append.mp hp with hp | hp
  · refine ⟨p, hp, ?_⟩
    rw [Bool.eq_false_iff, ne_eq, sameOrigin_iff] at hne ⊢
    grind
  · cases List.mem_singleton.mp hp
    rw [Bool.eq_false_iff, ne_eq, sameOrigin_iff, hr] at hne
    grind

/-- What holds of a hop as long as no hop that has moved answers a challenge. -/
structure Confined (w : World J) (s : Hop J) : Prop where
  trusted : s.req.redirectTrusted = false
  bare : w.stopped s.sent = none → s.Moved → s.req.Bare

theorem Next.confined {w : World J} {s s' : Hop J} (h : Next w s s') (hs : s.Confined w)
    (ha : s.Moved → ¬s.Reanswers w) : s'.Confined w := by
  cases h with
  | @answer resp value hgo hresp hv =>
    refine ⟨by simpa [answered] using hs.trusted, ?_⟩
    intro hgo' hm
    have hmoved : s.Moved := by
      refine hm.of_sent (r := (s.snapshot w).2) ?_ (snapshot_url w s) ?_
      · simp [answered, dispatched_sent]
      · simp [answered, sameOrigin_iff]
    refine absurd ⟨by simp [goes, hgo], ?_, resp, value, hresp, hv⟩ (ha hmoved)
    simpa [answered] using hgo'
  | @redirect resp location req hgo hresp hhops hreq =>
    obtain ⟨url, rfl⟩ := redirectRequest_ok hreq
    refine ⟨by simpa using hs.trusted, ?_⟩
    intro _ hm
    refine nextRequest_bare _ hs.trusted ?_
    intro hsame
    refine hs.bare hgo (hm.of_sent (r := (s.snapshot w).2) ?_ (snapshot_url w s) ?_)
    · simp [dispatched_sent]
    · simpa using hsame

/-- No hop that has moved answers a challenge, so every hop that has moved is private. -/
theorem visited_confined {w : World J} {s : Hop J} (hs : s.Confined w)
    (ha : ∀ t ∈ Loop.visited (turn w) budget s, t.Moved → ¬t.Reanswers w) :
    ∀ t ∈ Loop.visited (turn w) budget s, t.Confined w :=
  Loop.visited_rule (turn_lowers w) hs fun t ht htc _ hb => (turn_next hb).confined htc (ha t ht)

/-- A hop that has moved and answers a challenge is followed by one that is not private. -/
theorem Reanswers.next {w : World J} {s : Hop J} (ha : s.Reanswers w) (hm : s.Moved) :
    ∃ s', s.turn w = .next s' ∧ s'.goes w = true ∧ s'.Moved ∧ ¬s'.Private w := by
  obtain ⟨hgo, hagain, resp, value, hresp, hv⟩ := ha
  have hturn : s.turn w = .next (((s.dispatched w).ingest w resp).answered value) := by
    have hgo' : w.stopped s.sent = none := by simpa [goes] using hgo
    simp only [turn, hgo', hresp, hv]
  refine ⟨_, hturn, ?_, ?_, answered_not_private w _ value⟩
  · simpa [goes, answered] using hagain
  · obtain ⟨r, hr, hne⟩ := hm
    exact ⟨r, by simp [answered, dispatched_sent, hr], by simpa [answered] using hne⟩

/-- The requests of a run are those its hops send. -/
theorem run_sent (w : World J) (s : Hop J) :
    (Loop.run (turn w) budget (turn_lowers w) s).1 =
      s.sent ++ ((Loop.visited (turn w) budget s).filter (goes w)).map fun t => (t.snapshot w).2 := by
  refine Loop.run_rule (turn_lowers w) (fun s a => a.1 =
    s.sent ++ ((Loop.visited (turn w) budget s).filter (goes w)).map fun t => (t.snapshot w).2)
    ?_ ?_ s
  · intro s a hs
    rw [Loop.visited_done hs]
    rcases turn_done hs with ⟨hstop, ha⟩ | ⟨hgo, ha⟩
    · have hgoes : s.goes w = false := by simpa [goes, Option.ne_none_iff_isSome] using hstop
      simp [ha, hgoes]
    · have hgoes : s.goes w = true := by simp [goes, hgo]
      simp [ha, hgoes, dispatched_sent]
  · intro s s' a hs ha
    have hnext := turn_next hs
    have hgoes : s.goes w = true := by cases hnext <;> simp [goes, *]
    rw [ha, Loop.visited_next (turn_lowers w) hs, hnext.sent_eq, dispatched_sent]
    simp [hgoes]

theorem run_length (w : World J) (s : Hop J) :
    (Loop.run (turn w) budget (turn_lowers w) s).1.length ≤ s.sent.length + s.budget + 1 := by
  refine Loop.run_rule (turn_lowers w)
    (fun s a => a.1.length ≤ s.sent.length + s.budget + 1) ?_ ?_ s
  · intro s a hs
    rcases turn_done hs with ⟨-, ha⟩ | ⟨-, ha⟩
    · rw [ha]
      omega
    · rw [ha, dispatched_sent, List.length_append, List.length_singleton]
      omega
  · intro s s' a hs ha
    have hlt := (turn_next hs).budget_lt
    rw [(turn_next hs).sent_eq, dispatched_sent, List.length_append, List.length_singleton] at ha
    omega

/-- The first hop has sent nothing and has the whole budget. -/
theorem start_ok {w : World J} {req : Request} {jar : Option J} {s : Hop J}
    (h : start w req jar = .ok s) :
    s.sent = [] ∧ s.budget = req.maxRedirs + 2 ∧ s.req.redirectTrusted = req.redirectTrusted := by
  unfold start at h
  split at h
  · cases h
  · split at h
    · cases h
    · rename_i hproxy
      cases h
      unfold applyProxyResolver at hproxy
      simp only [budget]
      grind

end Hop

/-- With redirects untrusted, the requests sent are bounded; and once a hop has left the origin its
requests carry none of the caller's credentials exactly when no such hop answers a challenge. -/
theorem credentials_confined (w : World J) (req : Request) (jar : Option J)
    (ht : req.redirectTrusted = false) :
    (sendToInner w req jar).1 =
        ((hops w req jar).filter (Hop.goes w)).map (fun s => (s.snapshot w).2) ∧
      (sendToInner w req jar).1.length ≤ req.maxRedirs + 3 ∧
      ((∀ s ∈ hops w req jar, s.goes w = true → s.Moved → s.Private w) ↔
        ∀ s ∈ hops w req jar, s.Moved → ¬s.Reanswers w) := by
  unfold sendToInner hops
  split
  · simp
  · rename_i s hs
    obtain ⟨hsent, hbudget, htrusted⟩ := Hop.start_ok hs
    refine ⟨by simpa [hsent] using Hop.run_sent w s, ?_, ?_, ?_⟩
    · have := Hop.run_length w s
      rw [hsent, hbudget] at this
      simpa [Nat.add_assoc] using this
    · intro hp t htv hm ha
      obtain ⟨t', hturn, hgo, hm', hnot⟩ := ha.next hm
      exact hnot (hp t' (Loop.next_mem_visited (Hop.turn_lowers w) htv hturn) hgo hm')
    · intro ha t htv hgo hm
      have hstart : s.Confined w := by
        refine ⟨htrusted.trans ht, ?_⟩
        rintro - ⟨r, hr, -⟩
        simp [hsent] at hr
      have hconf := Hop.visited_confined hstart ha t htv
      exact Hop.private_of_bare (hconf.bare (by simpa [Hop.goes] using hgo) hm)

/-! ## An answer on another origin -/

/-- Servers that give these responses in turn, to a client without cookies and without a proxy. -/
def World.scripted (md5 : Bytes → Bytes) (responses : List Response) : World Unit where
  serve sent := match responses[sent.length - 1]? with
    | some resp => .ok resp
    | none => .error (.io .other "no route")
  stopped _ := none
  idna _ := none
  resolveProxy _ := none
  bypassed _ := false
  hashes := ⟨md5, fun _ => []⟩
  cnonce _ := "00"
  purgeExpired := id
  cookieHeader _ _ := none
  ingestResponse jar _ _ := jar

def emptyResponse (status : Nat) (headers : List Header) : Response :=
  ⟨status, "", "HTTP/1.1", headers, [], ""⟩

/-- One origin redirects to another, which asks for a digest answer. -/
def challengeElsewhere : List Response :=
  [emptyResponse 302 [("Location", "https://b.example/")],
    emptyResponse 401 [("WWW-Authenticate", "Digest realm=\"r\", nonce=\"n\"")],
    emptyResponse 200 []]

def digestRequest : Request :=
  { method := "GET", url := ⟨"https", none, "a.example", 443, "/"⟩, followRedirects := true,
    maxRedirs := 5, basicAuth := some ("u", "p"), authDigest := true }

/-- MD5 on the three texts that are hashed for the answer. -/
def md5OfAnswer (bytes : Bytes) : Bytes :=
  if bytes = asBytes "u:r:p" then
    [0x44, 0xad, 0xd2, 0x2b, 0x6f, 0x31, 0x79, 0xb7, 0x51, 0xea, 0xfd, 0x68, 0xee, 0x37, 0x0f, 0x7d]
  else if bytes = asBytes "GET:/" then
    [0x71, 0x99, 0x8c, 0x64, 0xae, 0xa3, 0x7a, 0xe7, 0x70, 0x20, 0xc4, 0x9c, 0x00, 0xf7, 0x3f, 0xa8]
  else
    [0xf2, 0x31, 0x21, 0xca, 0x97, 0x14, 0x3c, 0x6b, 0x35, 0x8d, 0xa6, 0x20, 0x22, 0x0c, 0x83, 0xb4]

theorem credentials_confined_bound :
    (sendToInner (.scripted md5OfAnswer challengeElsewhere) digestRequest none).1.length ≤ 8 :=
  (credentials_confined (.scripted md5OfAnswer challengeElsewhere) digestRequest none rfl).2.1

/-- The challenge of the new origin is answered with the caller's credentials. -/
theorem digest_answered_elsewhere :
    digestRequest.redirectTrusted = false ∧
      ¬∀ s ∈ hops (.scripted md5OfAnswer challengeElsewhere) digestRequest none,
        s.goes (.scripted md5OfAnswer challengeElsewhere) = true → s.Moved →
          s.Private (.scripted md5OfAnswer challengeElsewhere) := by
  refine ⟨rfl, ?_⟩
  intro hall
  have hsome : (hops (.scripted md5OfAnswer challengeElsewhere) digestRequest none).any (fun s =>
      s.sent.any (fun r => !sameOrigin r.url s.req.url) &&
        (s.snapshot (.scripted md5OfAnswer challengeElsewhere)).2.headers.any isAuthorization) =
          true := by
    decide +kernel
  obtain ⟨s, hs, hboth⟩ := List.any_eq_true.mp hsome
  obtain ⟨hmoved, hauth⟩ := Bool.and_eq_true_iff.mp hboth
  obtain ⟨r, hr, hne⟩ := List.any_eq_true.mp hmoved
  obtain ⟨h, hmem, hh⟩ := List.any_eq_true.mp hauth
  have hp := hall s hs rfl ⟨r, hr, by simpa using hne⟩
  simp [hp.authorization h hmem] at hh

end Rsurl.Http
