import Rsurl.Cookie.Jar
import Rsurl.Http2.Request
import Rsurl.Library.Endian
import Rsurl.Ascii
import Rsurl.Net.Wire
import Rsurl.Net.Resumed
import Rsurl.Split
import Rsurl.Utf8

/-!
# RTSP sessions

Requests and responses take turns on one connection, and behind the response to `PLAY` come frames
of media on it. A response is read by its lines and its length, a frame by its length; neither
reader takes more than its own, and the reader of frames stops at a response.
-/

namespace Rsurl.Rtsp

open Library Text
open Library.Endian (toBe fromBe)
open Library.Framing (Read)
open Net (Side putBack readLine readUpTo stream unread)
open Http2 (Url)

def defaultUserAgent : String := "rsurl/0.1.21"
def defaultPort : Nat := 554
def maxHeaderBytes : Nat := 64 * 1024
def maxBodyBytes : Nat := 64 * 1024 * 1024

/-- Cap on the media that one `PLAY` captures. -/
def maxInterleavedBytes : Nat := 64 * 1024 * 1024

def defaultTransport : String := "RTP/AVP/TCP;unicast;interleaved=0-1"

structure RtspResponse where
  version : String
  status : Nat
  reason : String
  headers : List (String × String)
  body : Bytes
  deriving DecidableEq, Repr

/-- The first value of the name. -/
def header (headers : List (String × String)) (name : String) : Option String :=
  (headers.find? fun (k, _) => eqIgnoreAsciiCase k name).map Prod.snd

structure Session where
  side : Side
  /-- The requests that have been sent. -/
  written : List Bytes
  uri : String
  cseq : UInt32
  sessionId : Option String
  deriving DecidableEq, Repr

/-! ## Requests -/

def rejectControlBytes (value field : String) : Except Error Unit :=
  if value.toList.any Cookies.isAsciiControl then
    .error (.invalidUrl s!"rtsp: control byte in {field}")
  else .ok ()

def requestUri (url : Url) : String :=
  if url.port = defaultPort then s!"rtsp://{url.host}{url.path}"
  else s!"rtsp://{url.host}:{url.port}{url.path}"

/-- Dialing comes to what is given here. -/
def connectWith (url : Url) (dialled : Except Error Side) : Except Error Session := do
  rejectControlBytes url.host "host"
  rejectControlBytes url.path "path"
  let side ← dialled
  return ⟨side, [], requestUri url, 1, none⟩

def buildRequest (method uri : String) (cseq : UInt32) (extraHeaders : List (String × String)) :
    String :=
  s!"{method} {uri} RTSP/1.0\r\nCSeq: {cseq}\r\n" ++
    String.join (extraHeaders.map fun (k, v) => k ++ ": " ++ v ++ "\r\n") ++
      "User-Agent: " ++ defaultUserAgent ++ "\r\n\r\n"

/-- `write_all` and `flush` -/
def Session.send (bytes : Bytes) (s : Session) : Outcome Session Unit :=
  match s.side.write with
  | (.ok (), side) => .ok () { s with side := side, written := s.written ++ [bytes] }
  | (.error e, side) => .error e { s with side := side }

/-! ## Responses -/

def parseSessionId (value : String) : String := trim ((split ';' value).headD value)

/-- `splitn(3, ' ')` gives the version, the status and the reason. -/
def parseStatusLine (line : String) : Except Error (String × Nat × String) :=
  let (version, more) := match splitOnce ' ' line with
    | some (version, more) => (version, some more)
    | none => (line, none)
  if ¬startsWith "RTSP/" version then .error (.badResponse s!"not RTSP: {version}")
  else match more with
    | none => .error (.badResponse ("missing status: " ++ dbgStr line))
    | some more =>
      let (statusStr, reason) := (splitOnce ' ' more).getD (more, "")
      match parseUnsigned 65535 statusStr with
      | none => .error (.badResponse ("bad status: " ++ dbgStr line))
      | some status => .ok (version, status, reason)

def readCappedLine (cap : Nat) (reads : List (Read Error UInt8)) :
    Except Error String × List (Read Error UInt8) :=
  let (line, buffer, rest) := readLine (cap + 1) [] reads
  (line.bind fun buf =>
    if buf = [] then .error .unexpectedEof
    else if cap < buf.length then .error (.badResponse "headers exceed 64 KiB")
    else .ok (fromUtf8Lossy buf), putBack buffer rest)

/-- The loop of `read_response`. A line counts at least one byte, so that there are as many turns as
there may be bytes. -/
def readHeaders : Nat → Nat → List (String × String) → List (Read Error UInt8) →
    Except Error (List (String × String)) × List (Read Error UInt8)
  | 0, _, _, reads => (.error (.badResponse "headers exceed 64 KiB"), reads)
  | left + 1, headerBytes, headers, reads =>
    match readCappedLine (maxHeaderBytes - headerBytes) reads with
    | (.error e, rest) => (.error e, rest)
    | (.ok line, rest) =>
      let headerBytes := headerBytes + len line
      if maxHeaderBytes < headerBytes then (.error (.badResponse "headers exceed 64 KiB"), rest)
      else
        let trimmed := trimEndMatches isEol line
        if trimmed = "" then (.ok headers, rest)
        else match splitOnce ':' trimmed with
          | none => (.error (.badResponse ("malformed header line: " ++ dbgStr trimmed)), rest)
          | some (k, v) => readHeaders left headerBytes (headers ++ [(trim k, trim v)]) rest

def contentLength (headers : List (String × String)) : Nat :=
  ((header headers "content-length").bind (parseUnsigned (2 ^ 64 - 1))).getD 0

/-- The body, by its length. -/
def readBody (contentLength : Nat) (reads : List (Read Error UInt8)) :
    Except Error Bytes × List (Read Error UInt8) :=
  if maxBodyBytes < contentLength then
    (.error (.badResponse s!"body too large: {contentLength}"), reads)
  else
    let (got, rest) := readUpTo contentLength reads
    (got.bind fun body => if body.length < contentLength then .error .unexpectedEof else .ok body,
      rest)

def readResponse (reads : List (Read Error UInt8)) :
    Except Error RtspResponse × List (Read Error UInt8) :=
  match readCappedLine maxHeaderBytes reads with
  | (.error e, rest) => (.error e, rest)
  | (.ok statusLine, rest) => match parseStatusLine (trimEndMatches isEol statusLine) with
    | .error e => (.error e, rest)
    | .ok (version, status, reason) =>
      match readHeaders (maxHeaderBytes + 1) (len statusLine) [] rest with
      | (.error e, rest) => (.error e, rest)
      | (.ok headers, rest) =>
        let (body, rest) := readBody (contentLength headers) rest
        (body.map fun body => ⟨version, status, reason, headers, body⟩, rest)

/-- What `request` asks of a response. -/
def checkResponse (cseq : UInt32) (resp : RtspResponse) : Except Error RtspResponse :=
  match header resp.headers "CSeq" with
  | none => .error (.badResponse "rtsp: response missing CSeq")
  | some respCseq => match parseUnsigned (2 ^ 32 - 1) (trim respCseq) with
    | none => .error (.badResponse ("rtsp: bad CSeq: " ++ dbgStr respCseq))
    | some n =>
      if n ≠ cseq.toNat then
        .error (.badResponse s!"rtsp: CSeq mismatch: sent {cseq}, got {n}")
      else if ¬(200 ≤ resp.status ∧ resp.status < 300) then
        .error (.badResponse s!"rtsp: {resp.status} {resp.reason}")
      else .ok resp

def request (method : String) (extraHeaders : List (String × String)) (s : Session) :
    Outcome Session RtspResponse :=
  let cseq := s.cseq
  let s := { s with cseq := cseq + 1 }
  (s.send (asBytes (buildRequest method s.uri cseq extraHeaders))).andThen fun _ s =>
    let (resp, rest) := readResponse s.side.reads
    .ofExcept (resp.bind (checkResponse cseq)) { s with side := { s.side with reads := rest } }

/-! ## Media -/

/-- The read has timed out, but the transfer has not. -/
def isIdle : Error → Bool
  | .io kind msg => (kind == .wouldBlock || kind == .timedOut) &&
    msg != "operation timed out: maximum transfer time (--max-time) reached"
  | _ => false

/-- So many bytes, or none if the stream ends or is idle before. -/
def fill : Nat → List (Read Error UInt8) → Except Error (Option Bytes) × List (Read Error UInt8)
  | 0, reads => (.ok (some []), reads)
  | _ + 1, [] => (.ok none, [])
  | _ + 1, .failed e :: rest => (if isIdle e then .ok none else .error e, rest)
  | n + 1, .data first more :: rest =>
    if n < more.length then (.ok (some (first :: more.take n)), putBack (more.drop n) rest)
    else
      let (got, rest) := fill (n - more.length) rest
      (got.map (Option.map (first :: more ++ ·)), rest)

theorem fill_some {n : Nat} {reads rest : List (Read Error UInt8)} {got : Bytes}
    (h : fill n reads = (.ok (some got), rest)) :
    got.length = n ∧ Net.unread reads = got ++ Net.unread rest := by
  fun_induction fill n reads generalizing got rest with
  | case1 reads =>
    cases h
    exact ⟨rfl, rfl⟩
  | case2 n => cases h
  | case3 n e rest' =>
    split at h <;> cases h
  | case4 n first more rest' hlt =>
    cases h
    refine ⟨by simp; omega, ?_⟩
    rw [Net.unread_putBack, Net.unread_data, List.cons_append, ← List.append_assoc,
      List.take_append_drop]
  | case5 n first more reads hlt got' rest' heq ih =>
    cases got' with
    | error e => cases h
    | ok got' =>
      cases got' with
      | none => cases h
      | some got' =>
        cases h
        obtain ⟨hlen, hunread⟩ := ih heq
        refine ⟨by simp [hlen]; omega, ?_⟩
        rw [Net.unread_data, hunread, List.append_assoc, List.cons_append]

/-- The loop of `read_interleaved`. -/
def interleavedLoop (total : Nat) (sink : Bytes) (reads : List (Read Error UInt8)) :
    Outcome (Bytes × List (Read Error UInt8)) Nat :=
  match hfirst : fill 4 reads with
  | (.error e, rest) => .error e (sink, rest)
  | (.ok none, rest) => .ok total (sink, rest)
  | (.ok (some hdr), rest) =>
    if hdr.head? ≠ some 0x24 then .ok total (sink, rest)
    else
      let len := fromBe (hdr.drop 2)
      match hsecond : fill len rest with
      | (.error e, rest) => .error e (sink, rest)
      | (.ok none, rest) => .ok total (sink, rest)
      | (.ok (some payload), rest) =>
        if maxInterleavedBytes ≤ total + len then .ok (total + len) (sink ++ payload, rest)
        else interleavedLoop (total + len) (sink ++ payload) rest
termination_by (Net.unread reads).length
decreasing_by
  obtain ⟨hlen, hunread⟩ := fill_some hfirst
  obtain ⟨-, hunread'⟩ := fill_some hsecond
  rw [hunread, hunread', List.length_append, List.length_append]
  omega

/-- The sink is a vector of bytes. -/
def readInterleaved (sink : Bytes) (s : Session) : Outcome (Bytes × Session) Nat :=
  (interleavedLoop 0 sink s.side.reads).mapState fun (sink, rest) =>
    (sink, { s with side := { s.side with reads := rest } })

/-! ## Methods -/

def options : Session → Outcome Session RtspResponse := request "OPTIONS" []

def describe : Session → Outcome Session RtspResponse :=
  request "DESCRIBE" [("Accept", "application/sdp")]

def setup (s : Session) : Outcome Session RtspResponse :=
  (request "SETUP" [("Transport", defaultTransport)] s).andThen fun resp s =>
    match header resp.headers "Session" with
    | none => .error (.badResponse "rtsp: SETUP response missing Session") s
    | some session => .ok resp { s with sessionId := some (parseSessionId session) }

def play (s : Session) : Outcome Session RtspResponse :=
  match s.sessionId with
  | none => .error (.badResponse "rtsp: PLAY requires a SETUP session first") s
  | some session => request "PLAY" [("Session", session), ("Range", "npt=0.000-")] s

def teardown (s : Session) : Outcome Session RtspResponse :=
  match s.sessionId with
  | none => .error (.badResponse "rtsp: TEARDOWN requires a SETUP session first") s
  | some session =>
    (request "TEARDOWN" [("Session", session)] s).andThen fun resp s =>
      .ok resp { s with sessionId := none }

/-- What `run_method_with` does on the session. -/
def runMethod (upper : String) (s : Session) : Outcome Session Bytes :=
  match upper with
  | "OPTIONS" => (options s).andThen fun r s => .ok r.body s
  | "DESCRIBE" => (describe s).andThen fun r s => .ok r.body s
  | "SETUP" =>
    (options s).andThen fun _ s =>
    (describe s).andThen fun _ s =>
    (setup s).andThen fun r s => .ok r.body s
  | "PLAY" =>
    (options s).andThen fun _ s =>
    (describe s).andThen fun _ s =>
    (setup s).andThen fun _ s =>
    (play s).andThen fun r s =>
      match readInterleaved r.body s with
      | .ok _ (out, s) => .ok out s
      | .error e (_, s) => .error e s
  | "TEARDOWN" =>
    (options s).andThen fun _ s =>
    (describe s).andThen fun _ s =>
    (setup s).andThen fun _ s =>
    (play s).andThen fun _ s =>
    (teardown s).andThen fun r s => .ok r.body s
  | other => .error (.badResponse ("rtsp: unsupported method " ++ dbgStr other ++
    " (expected OPTIONS, DESCRIBE, SETUP, PLAY, or TEARDOWN)")) s

def runMethodWith (url : Url) (method : String) (dialled : Except Error Side) :
    Except Error Bytes := do
  let s ← connectWith url dialled
  (runMethod (toAsciiUppercase method) s).result

/-! ## Reading off the stream -/

section

variable {reads : List (Read Error UInt8)} {back : List (Except Error UInt8)} {bytes : Bytes}

theorem stream_data (first : UInt8) (more : Bytes) (reads : List (Read Error UInt8)) :
    stream (.data first more :: reads) = (first :: more).map .ok ++ stream reads := rfl

theorem stream_putBack (bytes : Bytes) (reads : List (Read Error UInt8)) :
    stream (putBack bytes reads) = bytes.map .ok ++ stream reads := by
  cases bytes <;> rfl

/-- One read has more than the bytes that are asked for, or it is the front of them. -/
theorem ahead_data {first b : UInt8} {more : Bytes}
    (h : stream (.data first more :: reads) = (b :: bytes).map .ok ++ back) :
    first = b ∧ ((∃ c rest, more = bytes ++ c :: rest ∧
      back = (c :: rest).map .ok ++ stream reads) ∨
    ∃ rest, bytes = more ++ rest ∧ stream reads = rest.map .ok ++ back) := by
  have hinj : Function.Injective (Except.ok (ε := Error) (α := UInt8)) := fun _ _ => Except.ok.inj
  rw [stream_data, List.map_cons, List.map_cons, List.cons_append, List.cons_append,
    List.cons.injEq] at h
  refine ⟨Except.ok.inj h.1, ?_⟩
  rcases List.append_eq_append_iff.mp h.2 with ⟨out, hbytes, hreads⟩ | ⟨out, hmore, hback⟩
  · obtain ⟨front, rest, rfl, hfront, rfl⟩ := List.map_eq_append_iff.mp hbytes
    exact .inr ⟨rest, by rw [hinj.list_map hfront], hreads⟩
  · obtain ⟨front, rest, rfl, hfront, rfl⟩ := List.map_eq_append_iff.mp hmore
    obtain rfl := hinj.list_map hfront
    cases rest with
    | nil => exact .inr ⟨[], by simp, by simpa using hback.symm⟩
    | cons c rest => exact .inl ⟨c, rest, rfl, hback⟩

theorem readUpTo_stream (h : stream reads = bytes.map .ok ++ back) :
    ∃ left, readUpTo bytes.length reads = (.ok bytes, left) ∧ stream left = back := by
  induction reads generalizing bytes with
  | nil =>
    obtain ⟨hbytes, rfl⟩ := List.append_eq_nil_iff.mp h.symm
    obtain rfl := List.map_eq_nil_iff.mp hbytes
    exact ⟨[], rfl, rfl⟩
  | cons r reads ih =>
    cases bytes with
    | nil => exact ⟨r :: reads, rfl, h⟩
    | cons b bytes =>
      cases r with
      | failed e => cases h
      | data first more =>
        obtain ⟨rfl, ⟨c, rest, rfl, rfl⟩ | ⟨rest, rfl, hrest⟩⟩ := ahead_data h
        · refine ⟨putBack (c :: rest) reads, ?_, stream_putBack _ _⟩
          rw [List.length_cons, readUpTo, if_pos (by simp), List.take_left, List.drop_left]
        · obtain ⟨left, hread, hleft⟩ := ih hrest
          refine ⟨left, ?_, hleft⟩
          rw [List.length_cons, readUpTo, if_neg (by simp), List.length_append,
            Nat.add_sub_cancel_left, hread]
          rfl

/-- What is there is filled in. -/
theorem fill_of_readUpTo {n : Nat} {left : List (Read Error UInt8)}
    (h : readUpTo n reads = (.ok bytes, left)) (hlen : bytes.length = n) :
    fill n reads = (.ok (some bytes), left) := by
  fun_induction readUpTo n reads generalizing bytes left with
  | case1 reads =>
    cases h
    rw [fill]
  | case2 n =>
    cases h
    cases hlen
  | case3 n e rest => cases h
  | case4 n first more rest hlt =>
    cases h
    rw [fill, if_pos hlt]
  | case5 n first more reads hlt got rest heq ih =>
    cases got with
    | error e => cases h
    | ok got =>
      cases h
      dsimp only at hlen
      rw [List.cons_append, List.length_cons, List.length_append] at hlen
      rw [fill, if_neg hlt, ih heq (by omega)]
      rfl

theorem fill_stream (h : stream reads = bytes.map .ok ++ back) :
    ∃ left, fill bytes.length reads = (.ok (some bytes), left) ∧ stream left = back := by
  obtain ⟨left, hread, hleft⟩ := readUpTo_stream h
  exact ⟨left, fill_of_readUpTo hread rfl, hleft⟩

/-- The stream ends here, or nothing comes for so long that the read times out. -/
def Pauses : List (Except Error UInt8) → Prop
  | [] => True
  | .error e :: _ => isIdle e = true
  | .ok _ :: _ => False

theorem fill_pauses {n : Nat} (h : stream reads = bytes.map .ok ++ back) (hback : Pauses back)
    (hlt : bytes.length < n) : ∃ left, fill n reads = (.ok none, left) := by
  induction reads generalizing bytes n with
  | nil =>
    obtain ⟨n, rfl⟩ := Nat.exists_eq_succ_of_ne_zero (Nat.ne_of_gt (Nat.zero_lt_of_lt hlt))
    exact ⟨[], rfl⟩
  | cons r reads ih =>
    obtain ⟨n, rfl⟩ := Nat.exists_eq_succ_of_ne_zero (Nat.ne_of_gt (Nat.zero_lt_of_lt hlt))
    cases r with
    | failed e =>
      cases bytes with
      | nil =>
        obtain rfl : .error e :: stream reads = back := h
        have hidle : isIdle e = true := hback
        exact ⟨reads, by rw [fill, if_pos hidle]⟩
      | cons b bytes => cases h
    | data first more =>
      cases bytes with
      | nil =>
        rw [stream_data, List.map_nil, List.nil_append] at h
        subst h
        cases hback
      | cons b bytes =>
        obtain ⟨rfl, ⟨c, rest, rfl, rfl⟩ | ⟨rest, rfl, hrest⟩⟩ := ahead_data h
        · cases hback
        · rw [List.length_cons, List.length_append] at hlt
          obtain ⟨left, hfill⟩ := ih hrest (n := n - more.length) (by omega)
          exact ⟨left, by rw [fill, if_neg (by omega), hfill]; rfl⟩

theorem lineOf_line {line : Bytes} (h : (0x0a : UInt8) ∉ line) {n : Nat} (hn : line.length < n) :
    Net.lineOf n ((line ++ [0x0a]).map .ok ++ back) = (.ok (line ++ [0x0a]), back) := by
  induction line generalizing n with
  | nil =>
    obtain ⟨n, rfl⟩ := Nat.exists_eq_succ_of_ne_zero (Nat.ne_of_gt hn)
    rfl
  | cons b line ih =>
    obtain ⟨hb, hline⟩ := not_or.mp (mt List.mem_cons.mpr h)
    cases n with
    | zero => cases hn
    | succ n =>
      rw [List.cons_append, List.map_cons, List.cons_append, Net.lineOf, if_neg (Ne.symm hb),
        ih hline (Nat.lt_of_succ_lt_succ hn)]
      rfl

/-- A line of text is read back, if it is not too long. -/
theorem readCappedLine_stream {line : String} (hline : '\n' ∉ line.toList) {cap : Nat}
    (hcap : len line < cap)
    (h : stream reads = (asBytes (line ++ "\n")).map .ok ++ back) :
    ∃ left, readCappedLine cap reads = (.ok (line ++ "\n"), left) ∧ stream left = back := by
  have hbytes : asBytes (line ++ "\n") = asBytes line ++ [0x0a] := asBytes_append _ _
  have hnl : (0x0a : UInt8) ∉ asBytes line := fun hmem =>
    hline ((mem_asBytes (c := '\n') (by decide)).mp hmem)
  have hread := Net.readLine_stream (cap + 1) [] reads
  rw [List.map_nil, List.nil_append, h, hbytes, lineOf_line hnl (Nat.lt_succ_of_lt hcap)] at hread
  obtain ⟨hok, hleft⟩ := Prod.mk.inj hread
  refine ⟨putBack (readLine (cap + 1) [] reads).2.1 (readLine (cap + 1) [] reads).2.2, ?_, ?_⟩
  · have hlen : ¬cap < (asBytes line ++ [0x0a]).length := by
      rw [List.length_append]
      exact Nat.not_lt.mpr hcap
    dsimp only [readCappedLine]
    rw [← hok, Except.bind]
    rw [if_neg (List.append_ne_nil_of_right_ne_nil _ (List.cons_ne_nil _ _)), if_neg hlen, ← hbytes,
      fromUtf8Lossy_asBytes]
  · rw [stream_putBack, hleft]

/-- A line that is too long is not read to its end. -/
theorem readCappedLine_long {cap : Nat} (hbytes : (0x0a : UInt8) ∉ bytes)
    (hcap : cap < bytes.length) (h : stream reads = bytes.map .ok ++ back) :
    ∃ left, readCappedLine cap reads = (.error (.badResponse "headers exceed 64 KiB"), left) := by
  have hend : Net.lineEnd (cap + 1) bytes = some (cap + 1) := by
    have hnone : (bytes.take (cap + 1)).findIdx? (· == 0x0a) = none := by
      rw [List.findIdx?_eq_none_iff]
      intro b hb
      exact beq_eq_false_iff_ne.mpr fun heq => hbytes (heq ▸ List.mem_of_mem_take hb)
    rw [Net.lineEnd, hnone]
    exact if_pos hcap
  have hread := Net.readLine_stream (cap + 1) [] reads
  rw [List.map_nil, List.nil_append, h, Net.lineOf_bytes, hend] at hread
  obtain ⟨hok, -⟩ := Prod.mk.inj hread
  refine ⟨putBack (readLine (cap + 1) [] reads).2.1 (readLine (cap + 1) [] reads).2.2, ?_⟩
  have hlen : (bytes.take (cap + 1)).length = cap + 1 := List.length_take_of_le hcap
  dsimp only [readCappedLine]
  rw [← hok, Except.bind, if_neg (List.ne_nil_of_length_pos (by omega)), if_pos (by omega)]

end

/-! ## Well-formed responses -/

/-- A text without a line end in it. -/
def OneLine (s : String) : Prop := ∀ c ∈ s.toList, isEol c = false

instance (s : String) : Decidable (OneLine s) :=
  List.decidableBAll (fun c => isEol c = false) s.toList

/-- A response as a server sends it: the fields are what is before and behind their colons. -/
structure Reply where
  version : String
  status : Nat
  reason : String
  fields : List (String × String)
  body : Bytes
  deriving DecidableEq, Repr

namespace Reply

def statusLine (r : Reply) : String := r.version ++ " " ++ r.status.repr ++ " " ++ r.reason

def fieldLine (f : String × String) : String := f.1 ++ ":" ++ f.2

def line (text : String) : Bytes := asBytes (text ++ "\r\n")

def head (r : Reply) : Bytes :=
  line r.statusLine ++ (r.fields.flatMap (fun f => line (fieldLine f)) ++ line "")

def wire (r : Reply) : Bytes := r.head ++ r.body

/-- The response that is sent so. -/
def response (r : Reply) : RtspResponse :=
  ⟨r.version, r.status, r.reason, r.fields.map fun f => (trim f.1, trim f.2), r.body⟩

structure WellFormed (r : Reply) : Prop where
  version : startsWith "RTSP/" r.version = true ∧ ' ' ∉ r.version.toList ∧ OneLine r.version
  status : r.status < 1000
  reason : OneLine r.reason
  fields : ∀ f ∈ r.fields, ':' ∉ f.1.toList ∧ OneLine f.1 ∧ OneLine f.2
  /-- The body is so long as the length says, and there is none without one. -/
  body : ((header r.response.headers "content-length").map (parseUnsigned (2 ^ 64 - 1))).getD
    (some 0) = some r.body.length

/-- The response is no larger than the limits. -/
def Fits (r : Reply) : Prop := r.head.length ≤ maxHeaderBytes ∧ r.body.length ≤ maxBodyBytes

def Answers (r : Reply) (cseq : UInt32) : Prop :=
  ∃ v, header r.response.headers "CSeq" = some v ∧
    parseUnsigned (2 ^ 32 - 1) (trim v) = some cseq.toNat

def Accepted (r : Reply) : Prop := 200 ≤ r.status ∧ r.status < 300

instance (r : Reply) : Decidable r.Accepted := inferInstanceAs (Decidable (_ ∧ _))

/-- What a request that is answered so returns. -/
def verdict (r : Reply) : Except Error RtspResponse :=
  if r.Accepted then .ok r.response else .error (.badResponse s!"rtsp: {r.status} {r.reason}")

end Reply

theorem trimEndMatches_line {s : String} (h : OneLine s) :
    trimEndMatches isEol (s ++ "\r\n") = s := by
  have hlast : s.toList.rdropWhile isEol = s.toList :=
    List.rdropWhile_eq_self_iff.mpr fun hne => by simp [h _ (List.getLast_mem hne)]
  have hsplit : (s ++ "\r\n").toList = s.toList ++ ['\r'] ++ ['\n'] := by
    rw [String.toList_append, List.append_assoc]
    rfl
  rw [trimEndMatches, hsplit, List.rdropWhile_concat_pos _ _ _ rfl,
    List.rdropWhile_concat_pos _ _ _ rfl, hlast, String.ofList_toList]

theorem oneLine_append {s t : String} (hs : OneLine s) (ht : OneLine t) : OneLine (s ++ t) := by
  intro c hc
  rw [String.toList_append] at hc
  exact (List.mem_append.mp hc).elim (hs c) (ht c)

theorem digit_of_mem_repr {n : Nat} {c : Char} (hc : c ∈ n.repr.toList) : c.isDigit = true := by
  rw [Nat.repr, String.toList_ofList] at hc
  exact Nat.isDigit_of_mem_toDigits (by decide) (by decide) hc

theorem oneLine_repr (n : Nat) : OneLine n.repr := by
  intro c hc
  have hdigit := isDigit_bounds (digit_of_mem_repr hc)
  rw [isEol, Bool.or_eq_false_iff, beq_eq_false_iff_ne, beq_eq_false_iff_ne]
  constructor <;> rintro rfl <;> exact absurd hdigit.1 (by decide)

variable {reads : List (Read Error UInt8)} {back : List (Except Error UInt8)} {r : Reply}

theorem readLine_text {text : String} (htext : OneLine text) {cap : Nat}
    (hcap : (Reply.line text).length ≤ cap)
    (h : stream reads = (Reply.line text).map .ok ++ back) :
    ∃ left, readCappedLine cap reads = (.ok (text ++ "\r\n"), left) ∧ stream left = back := by
  have hsplit : text ++ "\r\n" = text ++ "\r" ++ "\n" := by
    rw [String.append_assoc]
    rfl
  have hlen : len (text ++ "\r") + 1 = (Reply.line text).length := by
    rw [Reply.line, hsplit, asBytes_append, List.length_append]
    rfl
  have hnl : '\n' ∉ (text ++ "\r").toList := by
    rw [String.toList_append]
    intro hmem
    rcases List.mem_append.mp hmem with hmem | hmem
    · exact absurd (htext _ hmem) (by decide)
    · exact absurd hmem (by decide)
  rw [Reply.line, hsplit] at h
  rw [hsplit]
  exact readCappedLine_stream hnl (by omega) h

theorem parseStatusLine_statusLine (hr : r.WellFormed) :
    parseStatusLine r.statusLine = .ok (r.version, r.status, r.reason) := by
  have hfirst : splitOnce ' ' r.statusLine =
      some (r.version, r.status.repr ++ " " ++ r.reason) := by
    refine splitOnce_of_toList ?_ hr.version.2.1
    simp [Reply.statusLine]
  have hsecond : splitOnce ' ' (r.status.repr ++ " " ++ r.reason) =
      some (r.status.repr, r.reason) := by
    refine splitOnce_of_toList (by simp) fun hmem => ?_
    exact absurd (digit_of_mem_repr hmem) (by decide)
  have hstatus : parseUnsigned 65535 r.status.repr = some r.status := by
    rw [parseUnsigned_repr, if_pos (hr.status.le.trans (by decide))]
  rw [parseStatusLine, hfirst]
  dsimp only
  rw [if_neg (not_not_intro hr.version.1), hsecond, Option.getD_some]
  dsimp only
  rw [hstatus]

theorem readHeaders_fields {fields : List (String × String)}
    (hfields : ∀ f ∈ fields, ':' ∉ f.1.toList ∧ OneLine f.1 ∧ OneLine f.2) {left headerBytes : Nat}
    (headers : List (String × String)) (hleft : maxHeaderBytes < left + headerBytes)
    (hroom : headerBytes + (fields.flatMap (fun f => Reply.line (Reply.fieldLine f)) ++
      Reply.line "").length ≤ maxHeaderBytes)
    (h : stream reads = (fields.flatMap (fun f => Reply.line (Reply.fieldLine f)) ++
      Reply.line "").map .ok ++ back) :
    ∃ rest, readHeaders left headerBytes headers reads =
      (.ok (headers ++ fields.map fun f => (trim f.1, trim f.2)), rest) ∧ stream rest = back := by
  induction fields generalizing left headerBytes headers reads with
  | nil =>
    obtain ⟨left, rfl⟩ := Nat.exists_eq_succ_of_ne_zero (show left ≠ 0 by omega)
    rw [List.flatMap_nil, List.nil_append] at h hroom
    have hlen : len ("" ++ "\r\n") = (Reply.line "").length := rfl
    have hempty : OneLine "" := nofun
    obtain ⟨rest, hread, hrest⟩ := readLine_text hempty (Nat.le_sub_of_add_le' hroom) h
    refine ⟨rest, ?_, hrest⟩
    rw [readHeaders, hread]
    dsimp only
    rw [if_neg (by omega), trimEndMatches_line hempty, if_pos rfl, List.map_nil, List.append_nil]
  | cons f fields ih =>
    obtain ⟨left, rfl⟩ := Nat.exists_eq_succ_of_ne_zero (show left ≠ 0 by omega)
    obtain ⟨hf, hfields⟩ := List.forall_mem_cons.mp hfields
    rw [List.flatMap_cons, List.append_assoc, List.map_append, List.append_assoc] at h
    rw [List.flatMap_cons, List.append_assoc, List.length_append] at hroom
    have hline : OneLine (Reply.fieldLine f) :=
      oneLine_append (oneLine_append hf.2.1 (by decide)) hf.2.2
    have hlen : len (Reply.fieldLine f ++ "\r\n") = (Reply.line (Reply.fieldLine f)).length := rfl
    have hcap : (Reply.line (Reply.fieldLine f)).length ≤ maxHeaderBytes - headerBytes := by omega
    have hpos : 0 < (Reply.line (Reply.fieldLine f)).length := by
      rw [Reply.line, asBytes_append, List.length_append]
      exact Nat.add_pos_right _ (by decide)
    obtain ⟨rest, hread, hrest⟩ := readLine_text hline hcap h
    have hsplit : splitOnce ':' (Reply.fieldLine f) = some f :=
      splitOnce_of_toList (by simp [Reply.fieldLine]) hf.1
    have hne : Reply.fieldLine f ≠ "" := by
      intro hempty
      rw [hempty] at hsplit
      cases hsplit
    obtain ⟨rest', hread', hrest'⟩ := ih hfields (headers ++ [(trim f.1, trim f.2)])
      (show _ < left + (headerBytes + len (Reply.fieldLine f ++ "\r\n")) by omega) (by omega) hrest
    refine ⟨rest', ?_, hrest'⟩
    rw [readHeaders, hread]
    dsimp only
    rw [if_neg (by omega), trimEndMatches_line hline, if_neg hne, hsplit]
    dsimp only
    rw [hread', List.append_assoc]
    rfl

theorem contentLength_eq (hr : r.WellFormed) :
    contentLength r.response.headers = r.body.length := by
  have hbody := hr.body
  rw [contentLength]
  cases hfind : header r.response.headers "content-length" with
  | none =>
    rw [hfind] at hbody
    exact Option.some.inj hbody
  | some v =>
    rw [hfind, Option.map_some, Option.getD_some] at hbody
    rw [Option.bind_some, hbody, Option.getD_some]

theorem oneLine_statusLine (hr : r.WellFormed) : OneLine r.statusLine :=
  oneLine_append (oneLine_append (oneLine_append (oneLine_append hr.version.2.2 (by decide))
    (oneLine_repr _)) (by decide)) hr.reason

/-- The lines of a response are read, and its body is left. -/
theorem readResponse_head (hr : r.WellFormed) (hhead : r.head.length ≤ maxHeaderBytes)
    (h : stream reads = r.wire.map .ok ++ back) :
    ∃ left, stream left = r.body.map .ok ++ back ∧
      readResponse reads = ((readBody r.body.length left).1.map fun body =>
        { r.response with body := body }, (readBody r.body.length left).2) := by
  rw [Reply.head, List.length_append] at hhead
  rw [Reply.wire, Reply.head, List.append_assoc, List.map_append, List.append_assoc,
    List.map_append, List.append_assoc] at h
  have hstatus := oneLine_statusLine hr
  have hlen : len (r.statusLine ++ "\r\n") = (Reply.line r.statusLine).length := rfl
  have hcap : (Reply.line r.statusLine).length ≤ maxHeaderBytes := by omega
  have hleft : maxHeaderBytes < maxHeaderBytes + 1 + (Reply.line r.statusLine).length := by omega
  obtain ⟨rest, hread, hrest⟩ := readLine_text hstatus hcap h
  obtain ⟨left, hread', hleft'⟩ := readHeaders_fields hr.fields [] hleft hhead hrest
  have hcontent : contentLength (r.fields.map fun f => (trim f.1, trim f.2)) = r.body.length :=
    contentLength_eq hr
  refine ⟨left, hleft', ?_⟩
  rw [readResponse, hread]
  dsimp only
  rw [trimEndMatches_line hstatus, parseStatusLine_statusLine hr]
  dsimp only
  rw [hlen, hread']
  dsimp only
  rw [List.nil_append, hcontent]
  rfl

/-- A response is read back, and what is behind it is left. -/
theorem readResponse_wire (hr : r.WellFormed) (hfits : r.Fits)
    (h : stream reads = r.wire.map .ok ++ back) :
    ∃ left, readResponse reads = (.ok r.response, left) ∧ stream left = back := by
  obtain ⟨rest, hrest, hread⟩ := readResponse_head hr hfits.1 h
  obtain ⟨left, hbody, hleft⟩ := readUpTo_stream hrest
  refine ⟨left, ?_, hleft⟩
  rw [hread, readBody, if_neg (Nat.not_lt.mpr hfits.2), hbody]
  dsimp only [Except.bind]
  rw [if_neg (lt_irrefl _)]
  rfl

/-! ## Requests that are answered -/

/-- Writing does not fail. -/
def Writes (side : Side) : Prop := ∀ e, some e ∉ side.sends

theorem send_eq {s : Session} (h : Writes s.side) (bytes : Bytes) :
    ∃ side, s.send bytes = .ok () { s with side := side, written := s.written ++ [bytes] } ∧
      Writes side ∧ side.reads = s.side.reads := by
  rw [Session.send, Side.write]
  cases hsends : s.side.sends with
  | nil => exact ⟨_, rfl, fun e he => by simp at he, rfl⟩
  | cons x sends =>
    cases x with
    | some e => exact absurd (hsends ▸ List.mem_cons_self) (h e)
    | none => exact ⟨_, rfl, fun e he => h e (hsends ▸ List.mem_cons_of_mem _ he), rfl⟩

/-- What is so behind a request and its response. -/
structure Advanced (s s' : Session) (back : List (Except Error UInt8)) : Prop where
  ahead : stream s'.side.reads = back
  writes : Writes s'.side
  cseq : s'.cseq = s.cseq + 1

/-- A request returns the response that is sent to it, and leaves the stream just behind it. -/
theorem request_eq {s : Session} (method : String) (extraHeaders : List (String × String))
    (hwrites : Writes s.side) (hr : r.WellFormed) (hfits : r.Fits) (hcseq : r.Answers s.cseq)
    (h : stream s.side.reads = r.wire.map .ok ++ back) :
    ∃ s', request method extraHeaders s = .ofExcept r.verdict s' ∧ Advanced s s' back ∧
      s'.sessionId = s.sessionId ∧
      s'.written = s.written ++ [asBytes (buildRequest method s.uri s.cseq extraHeaders)] := by
  obtain ⟨side, hsend, hwrites', hreads⟩ := send_eq (s := { s with cseq := s.cseq + 1 }) hwrites
    (asBytes (buildRequest method s.uri s.cseq extraHeaders))
  rw [← hreads] at h
  obtain ⟨left, hread, hleft⟩ := readResponse_wire hr hfits h
  have hcheck : checkResponse s.cseq r.response = r.verdict := by
    obtain ⟨v, hfind, hparse⟩ := hcseq
    rw [checkResponse, hfind]
    dsimp only
    rw [hparse]
    dsimp only
    rw [if_neg (not_not_intro rfl), ite_not]
    rfl
  refine ⟨{ s with
    side := { side with reads := left },
    written := s.written ++ [asBytes (buildRequest method s.uri s.cseq extraHeaders)],
    cseq := s.cseq + 1 }, ?_, ⟨hleft, hwrites', rfl⟩, rfl, rfl⟩
  rw [request]
  dsimp only
  rw [hsend, Outcome.ok_andThen]
  dsimp only
  rw [hread, ← hcheck]
  rfl

/-! ## Runs -/

inductive Call where
  | options
  | describe
  | setup
  | play
  | teardown
  deriving DecidableEq, Repr

namespace Call

def run : Call → Session → Outcome Session RtspResponse
  | options => Rtsp.options
  | describe => Rtsp.describe
  | setup => Rtsp.setup
  | play => Rtsp.play
  | teardown => Rtsp.teardown

/-- It is for a session that there is. -/
def Within : Call → Prop
  | play | teardown => True
  | _ => False

/-- Whether there is a session behind it. -/
def session : Call → Bool → Bool
  | setup, _ => true
  | teardown, _ => false
  | _, b => b

end Call

/-- The call, and the others while they succeed. -/
def callAll : Call → List Call → Session → Outcome Session RtspResponse
  | c, [], s => c.run s
  | c, d :: rest, s => (c.run s).andThen fun _ s => callAll d rest s

/-- What is called for a method. -/
def script : String → Option (Call × List Call)
  | "OPTIONS" => some (.options, [])
  | "DESCRIBE" => some (.describe, [])
  | "SETUP" => some (.options, [.describe, .setup])
  | "PLAY" => some (.options, [.describe, .setup, .play])
  | "TEARDOWN" => some (.options, [.describe, .setup, .play, .teardown])
  | _ => none

/-- What is returned in the end. -/
def finish (upper : String) (resp : RtspResponse) (s : Session) : Outcome Session Bytes :=
  if upper = "PLAY" then
    match readInterleaved resp.body s with
    | .ok _ (out, s) => .ok out s
    | .error e (_, s) => .error e s
  else .ok resp.body s

theorem runMethod_eq {upper : String} {c : Call} {cs : List Call} (h : script upper = some (c, cs))
    (s : Session) : runMethod upper s = (callAll c cs s).andThen (finish upper) := by
  unfold script at h
  split at h <;> cases h <;>
    simp only [runMethod, callAll, Call.run, Outcome.andThen_assoc] <;> rfl

/-- Each call that is for a session has one. -/
def Orderly : Bool → List Call → Prop
  | _, [] => True
  | b, c :: cs => (c.Within → b = true) ∧ Orderly (c.session b) cs

theorem orderly_of_script {upper : String} {c : Call} {cs : List Call}
    (h : script upper = some (c, cs)) : Orderly false (c :: cs) := by
  unfold script at h
  split at h <;> cases h <;> simp [Orderly, Call.Within, Call.session]

/-- The response is one to the call. -/
structure Reply.To (r : Reply) (c : Call) (cseq : UInt32) : Prop where
  wellFormed : r.WellFormed
  fits : r.Fits
  answers : r.Answers cseq
  session : c = .setup → ∃ v, header r.response.headers "Session" = some v

/-- The responses are those to the calls, up to the first that refuses one. -/
def Answered : List Call → UInt32 → List Reply → Prop
  | [], _, rs => rs = []
  | _ :: _, _, [] => False
  | c :: cs, cseq, r :: rs =>
    r.To c cseq ∧ if r.Accepted then Answered cs (cseq + 1) rs else rs = []

theorem answered_cons {c : Call} {cs : List Call} {cseq : UInt32} {rs : List Reply}
    (hr : r.To c cseq) (hok : r.Accepted) (h : Answered cs (cseq + 1) rs) :
    Answered (c :: cs) cseq (r :: rs) :=
  ⟨hr, by rwa [if_pos hok]⟩

theorem call_eq {c : Call} {s : Session} (hsession : c.Within → s.sessionId.isSome = true)
    (hwrites : Writes s.side) (hr : r.To c s.cseq)
    (h : stream s.side.reads = r.wire.map .ok ++ back) :
    ∃ s', c.run s = .ofExcept r.verdict s' ∧ Advanced s s' back ∧
      (r.Accepted → s'.sessionId.isSome = c.session s.sessionId.isSome) := by
  have hrequest (method : String) (extra : List (String × String)) :=
    request_eq method extra hwrites hr.wellFormed hr.fits hr.answers h
  cases c with
  | options =>
    obtain ⟨s', hrun, hadv, hid, -⟩ := hrequest "OPTIONS" []
    exact ⟨s', hrun, hadv, fun _ => congrArg Option.isSome hid⟩
  | describe =>
    obtain ⟨s', hrun, hadv, hid, -⟩ := hrequest "DESCRIBE" [("Accept", "application/sdp")]
    exact ⟨s', hrun, hadv, fun _ => congrArg Option.isSome hid⟩
  | setup =>
    obtain ⟨s', hrun, hadv, hid, -⟩ := hrequest "SETUP" [("Transport", defaultTransport)]
    obtain ⟨v, hv⟩ := hr.session rfl
    by_cases hok : r.Accepted
    · rw [Reply.verdict, if_pos hok] at hrun ⊢
      refine ⟨{ s' with sessionId := some (parseSessionId v) }, ?_,
        ⟨hadv.ahead, hadv.writes, hadv.cseq⟩, fun _ => rfl⟩
      rw [Call.run, setup, hrun, Outcome.ofExcept, Outcome.ok_andThen, hv]
      rfl
    · rw [Reply.verdict, if_neg hok] at hrun ⊢
      refine ⟨s', ?_, hadv, fun h => absurd h hok⟩
      rw [Call.run, setup, hrun]
      rfl
  | play =>
    obtain ⟨id, hid⟩ := Option.isSome_iff_exists.mp (hsession trivial)
    obtain ⟨s', hrun, hadv, hkept, -⟩ :=
      hrequest "PLAY" [("Session", id), ("Range", "npt=0.000-")]
    refine ⟨s', ?_, hadv, fun _ => congrArg Option.isSome hkept⟩
    rw [Call.run, play, hid]
    exact hrun
  | teardown =>
    obtain ⟨id, hid⟩ := Option.isSome_iff_exists.mp (hsession trivial)
    obtain ⟨s', hrun, hadv, -, -⟩ := hrequest "TEARDOWN" [("Session", id)]
    by_cases hok : r.Accepted
    · rw [Reply.verdict, if_pos hok] at hrun ⊢
      refine ⟨{ s' with sessionId := none }, ?_, ⟨hadv.ahead, hadv.writes, hadv.cseq⟩,
        fun _ => rfl⟩
      rw [Call.run, teardown, hid]
      dsimp only
      rw [hrun]
      rfl
    · rw [Reply.verdict, if_neg hok] at hrun ⊢
      refine ⟨s', ?_, hadv, fun h => absurd h hok⟩
      rw [Call.run, teardown, hid]
      dsimp only
      rw [hrun]
      rfl

/-- The last response decides, and what is behind it is left. -/
theorem callAll_eq {c : Call} {cs : List Call} {s : Session} {rs : List Reply}
    (hord : Orderly s.sessionId.isSome (c :: cs)) (hwrites : Writes s.side)
    (hrs : Answered (c :: cs) s.cseq rs)
    (h : stream s.side.reads = (rs.flatMap Reply.wire).map .ok ++ back) :
    ∃ r s', rs.getLast? = some r ∧ callAll c cs s = .ofExcept r.verdict s' ∧
      stream s'.side.reads = back := by
  induction cs generalizing c s rs with
  | nil =>
    match rs, hrs with
    | r :: rs, hrs =>
      obtain ⟨hr, hrest⟩ := hrs
      have hnil : rs = [] := by
        split at hrest <;> exact hrest
      subst hnil
      rw [List.flatMap_singleton] at h
      obtain ⟨s', hrun, hadv, -⟩ := call_eq hord.1 hwrites hr h
      exact ⟨r, s', rfl, hrun, hadv.ahead⟩
  | cons d cs ih =>
    match rs, hrs with
    | r :: rs, hrs =>
      obtain ⟨hr, hrest⟩ := hrs
      rw [List.flatMap_cons, List.map_append, List.append_assoc] at h
      obtain ⟨s', hrun, hadv, hid⟩ := call_eq hord.1 hwrites hr h
      by_cases hok : r.Accepted
      · rw [if_pos hok, ← hadv.cseq] at hrest
        obtain ⟨r', s'', hlast, hall, hback⟩ := ih (by rw [hid hok]; exact hord.2) hadv.writes
          hrest hadv.ahead
        refine ⟨r', s'', by rw [List.getLast?_cons, hlast]; rfl, ?_, hback⟩
        rw [callAll, hrun, Reply.verdict, if_pos hok, Outcome.ofExcept, Outcome.ok_andThen, hall]
      · rw [if_neg hok] at hrest
        subst hrest
        refine ⟨r, s', rfl, ?_, hadv.ahead⟩
        rw [callAll, hrun, Reply.verdict, if_neg hok]
        rfl

/-! ## Captures -/

/-- A frame of media. -/
structure Frame where
  channel : UInt8
  payload : Bytes
  short : payload.length < 2 ^ 16

def Frame.header (f : Frame) : Bytes := 0x24 :: f.channel :: toBe 2 f.payload.length

def Frame.wire (f : Frame) : Bytes := f.header ++ f.payload

/-- The payloads, up to the one with which there are so many bytes. -/
def captured : Nat → List Frame → Bytes
  | _, [] => []
  | left, f :: fs =>
    if left ≤ f.payload.length then f.payload
    else f.payload ++ captured (left - f.payload.length) fs

/-- Here media end: the stream ends or is idle, maybe in a frame, or a response comes. -/
inductive MediaEnds : List (Except Error UInt8) → Prop where
  | pauses (f : Frame) (front rest : Bytes) (back : List (Except Error UInt8))
    (hwire : f.wire = front ++ rest) (hrest : rest ≠ []) (hback : Pauses back) :
    MediaEnds (front.map .ok ++ back)
  | response (r : Reply) (back : List (Except Error UInt8)) (hr : r.WellFormed) :
    MediaEnds (r.wire.map .ok ++ back)

theorem length_header (f : Frame) : f.header.length = 4 := by simp [Frame.header]

theorem fromBe_header (f : Frame) : fromBe (f.header.drop 2) = f.payload.length :=
  Endian.fromBe_toBe f.short

theorem prefix_wire (hr : r.WellFormed) : asBytes "RTSP/" <+: r.wire := by
  obtain ⟨t, ht⟩ := List.isPrefixOf_iff_prefix.mp hr.version.1
  have hversion : asBytes r.version = asBytes "RTSP/" ++ asBytes (String.ofList t) := by
    rw [← asBytes_append]
    congr 1
    rw [← String.toList_inj, String.toList_append, ← ht]
    exact congrArg _ String.toList_ofList.symm
  have hwire : asBytes r.version <+: r.wire := by
    simp only [Reply.wire, Reply.head, Reply.line, Reply.statusLine, asBytes_append,
      List.append_assoc]
    exact List.prefix_append _ _
  exact (hversion ▸ List.prefix_append _ _).trans hwire

section

variable {total : Nat} {sink hdr payload : Bytes} {left left' : List (Read Error UInt8)}

theorem interleavedLoop_none (h : fill 4 reads = (.ok none, left)) :
    interleavedLoop total sink reads = .ok total (sink, left) := by
  rw [interleavedLoop]
  split <;> simp_all

theorem interleavedLoop_other (h : fill 4 reads = (.ok (some hdr), left))
    (hhdr : hdr.head? ≠ some 0x24) :
    interleavedLoop total sink reads = .ok total (sink, left) := by
  rw [interleavedLoop]
  split <;> simp_all

theorem interleavedLoop_cut (h : fill 4 reads = (.ok (some hdr), left))
    (hhdr : hdr.head? = some 0x24) (h' : fill (fromBe (hdr.drop 2)) left = (.ok none, left')) :
    interleavedLoop total sink reads = .ok total (sink, left') := by
  rw [interleavedLoop]
  split <;> simp_all
  split <;> simp_all

theorem interleavedLoop_frame (h : fill 4 reads = (.ok (some hdr), left))
    (hhdr : hdr.head? = some 0x24)
    (h' : fill (fromBe (hdr.drop 2)) left = (.ok (some payload), left')) :
    interleavedLoop total sink reads =
      if maxInterleavedBytes ≤ total + fromBe (hdr.drop 2) then
        .ok (total + fromBe (hdr.drop 2)) (sink ++ payload, left')
      else interleavedLoop (total + fromBe (hdr.drop 2)) (sink ++ payload) left' := by
  rw [interleavedLoop]
  split <;> simp_all
  split <;> simp_all

end

/-- Nothing is written where the media end. -/
theorem interleavedLoop_ends (total : Nat) (sink : Bytes) (h : MediaEnds (stream reads)) :
    ∃ left, interleavedLoop total sink reads = .ok total (sink, left) := by
  obtain ⟨st, hst⟩ : ∃ st, stream reads = st := ⟨_, rfl⟩
  rw [hst] at h
  cases h with
  | pauses f front rest back hwire hrest hback =>
    by_cases hshort : front.length < 4
    · obtain ⟨left, hfill⟩ := fill_pauses hst hback hshort
      exact ⟨left, interleavedLoop_none hfill⟩
    · obtain ⟨more, rfl⟩ : f.header <+: front := by
        refine List.prefix_of_prefix_length_le ⟨f.payload, rfl⟩ ⟨rest, hwire.symm⟩ ?_
        rw [length_header]
        exact Nat.not_lt.mp hshort
      rw [Frame.wire, List.append_assoc] at hwire
      have hpayload : f.payload = more ++ rest := List.append_cancel_left hwire
      rw [List.map_append, List.append_assoc] at hst
      obtain ⟨left, hfill, hleft⟩ := fill_stream hst
      have hlt : more.length < f.payload.length := by
        rw [hpayload, List.length_append]
        exact Nat.lt_add_of_pos_right (List.length_pos_iff.mpr hrest)
      obtain ⟨left', hfill'⟩ := fill_pauses hleft hback hlt
      rw [length_header] at hfill
      rw [← fromBe_header] at hfill'
      exact ⟨left', interleavedLoop_cut hfill rfl hfill'⟩
  | response r back hr =>
    obtain ⟨rest, hrest⟩ := prefix_wire hr
    have hfront : asBytes "RTSP/" = [0x52, 0x54, 0x53, 0x50] ++ [0x2f] := by decide
    rw [← hrest, hfront, List.append_assoc, List.map_append, List.append_assoc] at hst
    obtain ⟨left, hfill, -⟩ := fill_stream hst
    exact ⟨left, interleavedLoop_other hfill (by decide)⟩

/-- The payloads are written until there are enough, or the media end. -/
theorem interleavedLoop_eq {total : Nat} {sink : Bytes} {fs : List Frame}
    (htotal : total < maxInterleavedBytes)
    (h : stream reads = (fs.flatMap Frame.wire).map .ok ++ back)
    (hend : maxInterleavedBytes ≤ total + (fs.map fun f => f.payload.length).sum ∨
      MediaEnds back) :
    ∃ n left, interleavedLoop total sink reads =
      .ok n (sink ++ captured (maxInterleavedBytes - total) fs, left) := by
  induction fs generalizing total sink reads with
  | nil =>
    have hends : MediaEnds (stream reads) := by
      rw [h]
      exact hend.resolve_left (Nat.not_le.mpr htotal)
    obtain ⟨left, hloop⟩ := interleavedLoop_ends total sink hends
    exact ⟨total, left, by rw [hloop, captured, List.append_nil]⟩
  | cons f fs ih =>
    rw [List.flatMap_cons, Frame.wire, List.append_assoc, List.map_append, List.append_assoc,
      List.map_append, List.append_assoc] at h
    obtain ⟨left, hfill, hleft⟩ := fill_stream h
    obtain ⟨left', hfill', hleft'⟩ := fill_stream hleft
    rw [length_header] at hfill
    rw [← fromBe_header] at hfill'
    rw [interleavedLoop_frame hfill rfl hfill', fromBe_header, captured]
    rw [List.map_cons, List.sum_cons, ← Nat.add_assoc] at hend
    by_cases hfull : maxInterleavedBytes ≤ total + f.payload.length
    · rw [if_pos hfull, if_pos (Nat.sub_le_iff_le_add'.mpr hfull)]
      exact ⟨_, left', rfl⟩
    · rw [if_neg hfull, if_neg (fun h => hfull (Nat.sub_le_iff_le_add'.mp h)), Nat.sub_sub,
        ← List.append_assoc]
      exact ih (Nat.not_le.mp hfull) hleft' hend

theorem readInterleaved_eq {s : Session} (sink : Bytes) {fs : List Frame}
    (h : stream s.side.reads = (fs.flatMap Frame.wire).map .ok ++ back)
    (hend : maxInterleavedBytes ≤ (fs.map fun f => f.payload.length).sum ∨ MediaEnds back) :
    ∃ n s', readInterleaved sink s = .ok n (sink ++ captured maxInterleavedBytes fs, s') := by
  obtain ⟨n, left, hloop⟩ := @interleavedLoop_eq _ _ 0 sink fs (by decide) h
    (by rwa [Nat.zero_add])
  exact ⟨n, _, by rw [readInterleaved, hloop]; rfl⟩

theorem connectWith_ok {url : Url} {side : Side} {s : Session}
    (h : connectWith url (.ok side) = .ok s) : s = ⟨side, [], requestUri url, 1, none⟩ := by
  rw [connectWith] at h
  cases hhost : rejectControlBytes url.host "host" with
  | error e =>
    rw [hhost] at h
    cases h
  | ok _ =>
    cases hpath : rejectControlBytes url.path "path" with
    | error e =>
      rw [hhost, hpath] at h
      cases h
    | ok _ =>
      rw [hhost, hpath] at h
      cases h
      rfl

/-- A request that is answered returns the response with its body and leaves the stream just behind
it, in any session. So does a run for each of its calls, and returns what the last response has; a
run for `PLAY` adds the payloads of the frames that come behind it. -/
theorem control_and_media :
    (∀ (s : Session) (method : String) (extraHeaders : List (String × String)) (r : Reply)
        (back : List (Except Error UInt8)), Writes s.side → r.WellFormed → r.Fits →
      r.Answers s.cseq → stream s.side.reads = r.wire.map .ok ++ back →
      ∃ s', request method extraHeaders s = .ofExcept r.verdict s' ∧ Advanced s s' back) ∧
    ∀ (url : Url) (side : Side) (s : Session) (method : String) (c : Call) (cs : List Call)
        (rs : List Reply) (back : List (Except Error UInt8)),
      connectWith url (.ok side) = .ok s → Writes side →
      script (toAsciiUppercase method) = some (c, cs) → Answered (c :: cs) 1 rs →
      stream side.reads = (rs.flatMap Reply.wire).map .ok ++ back →
      ∃ r s', rs.getLast? = some r ∧ callAll c cs s = .ofExcept r.verdict s' ∧
        stream s'.side.reads = back ∧
        (¬(r.Accepted ∧ toAsciiUppercase method = "PLAY") →
          runMethodWith url method (.ok side) = r.verdict.map RtspResponse.body) ∧
        (r.Accepted → toAsciiUppercase method = "PLAY" →
          ∀ (fs : List Frame) (rest : List (Except Error UInt8)),
          back = (fs.flatMap Frame.wire).map .ok ++ rest →
          maxInterleavedBytes ≤ (fs.map fun f => f.payload.length).sum ∨ MediaEnds rest →
          runMethodWith url method (.ok side) =
            .ok (r.body ++ captured maxInterleavedBytes fs)) := by
  refine ⟨fun s method extraHeaders r back hwrites hr hfits hcseq h => ?_, ?_⟩
  · obtain ⟨s', hreq, hadv, -⟩ := request_eq method extraHeaders hwrites hr hfits hcseq h
    exact ⟨s', hreq, hadv⟩
  intro url side s method c cs rs back hconn hwrites hscript hrs h
  have hs := connectWith_ok hconn
  have hord : Orderly s.sessionId.isSome (c :: cs) := by
    rw [hs]
    exact orderly_of_script hscript
  obtain ⟨r, s', hlast, hall, hback⟩ := callAll_eq hord (by rwa [hs]) (by rwa [hs]) (by rwa [hs])
  have hrun : runMethodWith url method (.ok side) =
      ((Outcome.ofExcept r.verdict s').andThen (finish (toAsciiUppercase method))).result := by
    rw [← hall, ← runMethod_eq hscript, runMethodWith, hconn]
    rfl
  refine ⟨r, s', hlast, hall, hback, fun hnot => ?_, fun hok hplay fs rest hfs hend => ?_⟩
  · rw [hrun, Reply.verdict]
    split
    · next hok =>
      rw [Outcome.ofExcept, Outcome.ok_andThen]
      dsimp only [finish]
      rw [if_neg fun hplay => hnot ⟨hok, hplay⟩]
      rfl
    · rfl
  · obtain ⟨n, s'', hmedia⟩ := readInterleaved_eq r.body (hback.trans hfs) hend
    have hbody : r.response.body = r.body := rfl
    rw [hrun, Reply.verdict, if_pos hok, Outcome.ofExcept, Outcome.ok_andThen]
    dsimp only [finish]
    rw [if_pos hplay, hbody, hmedia]
    rfl

def camera : Url := ⟨"rtsp", none, "cam", 554, "/1"⟩

def okay (cseq : Nat) : Reply :=
  ⟨"RTSP/1.0", 200, "OK", [("CSeq", " " ++ cseq.repr), ("Session", " 7;timeout=60")], []⟩

/-- The media look like a response. -/
def beep : Frame := ⟨0, asBytes "RTSP/1.0 \r\n", by decide⟩

/-- A connection that delivers so much at once. -/
def delivering (bytes : Bytes) : Side := ⟨putBack bytes [], []⟩

theorem stream_delivering (bytes : Bytes) : stream (delivering bytes).reads = bytes.map .ok := by
  rw [delivering, stream_putBack]
  exact List.append_nil _

theorem okay_to {n : Nat} (hn : n < 6) (c : Call) {cseq : UInt32} (hcseq : cseq.toNat = n) :
    (okay n).To c cseq := by
  interval_cases n <;>
    exact ⟨⟨by decide +kernel, by decide +kernel, by decide +kernel, by decide +kernel,
      by decide +kernel⟩, ⟨by decide +kernel, by decide +kernel⟩,
      ⟨_, rfl, by rw [hcseq]; decide +kernel⟩, fun _ => ⟨_, rfl⟩⟩

/-- What is sent up to the response to `PLAY`. -/
def played : List Reply := [okay 1, okay 2, okay 3, okay 4]

theorem answered_played : Answered [.options, .describe, .setup, .play] 1 played := by
  have hok (n : Nat) : (okay n).Accepted := ⟨Nat.le_refl 200, show 200 < 300 by decide⟩
  refine answered_cons (okay_to (by decide) _ rfl) (hok 1) ?_
  refine answered_cons (okay_to (by decide) _ rfl) (hok 2) ?_
  refine answered_cons (okay_to (by decide) _ rfl) (hok 3) ?_
  exact answered_cons (okay_to (by decide) _ rfl) (hok 4) rfl

theorem control_and_media_play :
    runMethodWith camera "play" (.ok (delivering
      (played.flatMap Reply.wire ++ ([beep, beep].flatMap Frame.wire ++ [0x24])))) =
        .ok (beep.payload ++ beep.payload) := by
  have hupper : toAsciiUppercase "play" = "PLAY" := by decide
  have hstream := stream_delivering
    (played.flatMap Reply.wire ++ ([beep, beep].flatMap Frame.wire ++ [0x24]))
  rw [List.map_append] at hstream
  obtain ⟨r, s', hlast, -, -, -, hplay⟩ := control_and_media.2 camera _ _ "play" .options
    [.describe, .setup, .play] played _ rfl (fun e he => by cases he) (by rw [hupper]; rfl)
    answered_played hstream
  obtain rfl : okay 4 = r := Option.some.inj hlast
  rw [hplay ⟨Nat.le_refl 200, by decide⟩ hupper [beep, beep] [.ok 0x24] List.map_append
    (.inr (.pauses beep [0x24] _ [] rfl (List.cons_ne_nil _ _) trivial))]
  decide +kernel

def notFound : Reply := ⟨"RTSP/1.0", 404, "Not Found", [("CSeq", "1")], []⟩

/-- A body of a byte more than 64 MiB. -/
def huge : Reply :=
  ⟨"RTSP/1.0", 200, "OK", [("CSeq", "1"), ("Content-Length", "67108865")],
    List.replicate 67108865 0⟩

/-- A status line of more than 64 KiB. -/
def verbose : Reply :=
  ⟨"RTSP/1.0", 200, String.ofList (List.replicate 65536 'a'), [("CSeq", "1")], []⟩

theorem notFound_wellFormed : notFound.WellFormed where
  version := by decide
  status := by decide
  reason := by decide
  fields := by decide
  body := by decide

theorem verbose_wellFormed : verbose.WellFormed where
  version := by decide
  status := by decide
  reason c hc := by
    rw [verbose, String.toList_ofList] at hc
    rw [List.eq_of_mem_replicate hc]
    rfl
  fields := by decide
  body := by decide

theorem huge_wellFormed : huge.WellFormed where
  version := by decide
  status := by decide
  reason := by decide
  fields := by decide
  body := by
    have hparse : parseUnsigned (2 ^ 64 - 1) "67108865" = some 67108865 := by decide
    have hlen : huge.body.length = 67108865 := List.length_replicate
    rw [hlen]
    exact hparse

theorem options_error {side : Side} {left : List (Read Error UInt8)} {e : Error}
    (hside : side.sends = []) (h : readResponse side.reads = (.error e, left)) :
    runMethodWith camera "OPTIONS" (.ok side) = .error e := by
  have hrun : runMethodWith camera "OPTIONS" (.ok side) =
      ((options ⟨side, [], requestUri camera, 1, none⟩).andThen fun r s =>
        .ok r.body s).result := by
    have hupper : toAsciiUppercase "OPTIONS" = "OPTIONS" := by decide +kernel
    rw [runMethodWith, hupper]
    rfl
  rw [hrun, options, request, Session.send, Side.write, hside]
  dsimp only
  rw [Outcome.ok_andThen]
  dsimp only
  rw [h]
  rfl

/-- A response that refuses is an error, and so is one that is larger than the limits; a frame
before a response is read as its status line. -/
theorem not_control_and_media :
    (notFound.WellFormed ∧ notFound.Fits ∧ notFound.Answers 1 ∧
      runMethodWith camera "OPTIONS" (.ok (delivering notFound.wire)) =
        .error (.badResponse "rtsp: 404 Not Found")) ∧
    (huge.WellFormed ∧ huge.Answers 1 ∧
      runMethodWith camera "OPTIONS" (.ok (delivering huge.wire)) =
        .error (.badResponse "body too large: 67108865")) ∧
    (verbose.WellFormed ∧ verbose.Answers 1 ∧
      runMethodWith camera "OPTIONS" (.ok (delivering verbose.wire)) =
        .error (.badResponse "headers exceed 64 KiB")) ∧
    runMethodWith camera "TEARDOWN" (.ok (delivering
      (played.flatMap Reply.wire ++ (beep.wire ++ (okay 5).wire)))) =
        .error (.badResponse "not RTSP: $\x00\x00\x0bRTSP/1.0") := by
  have hcseq (r : Reply) (h : header r.response.headers "CSeq" = some "1") : r.Answers 1 :=
    ⟨_, h, by decide +kernel⟩
  have hstream (r : Reply) : stream (delivering r.wire).reads = r.wire.map .ok ++ [] := by
    rw [stream_delivering, List.append_nil]
  refine ⟨⟨notFound_wellFormed, ⟨by decide +kernel, by decide +kernel⟩, hcseq _ rfl,
    by decide +kernel⟩, ⟨huge_wellFormed, hcseq _ rfl, ?_⟩, ⟨verbose_wellFormed, hcseq _ rfl, ?_⟩,
    by decide +kernel⟩
  · have hhead : huge.head.length ≤ maxHeaderBytes := by decide +kernel
    have hlen : huge.body.length = 67108865 := List.length_replicate
    obtain ⟨left, -, hread⟩ := readResponse_head huge_wellFormed hhead (hstream huge)
    rw [readBody, if_pos (by rw [hlen]; decide), hlen] at hread
    exact options_error rfl hread
  · obtain ⟨rest, hrest⟩ : asBytes verbose.statusLine <+: verbose.wire := by
      simp only [Reply.wire, Reply.head, Reply.line, asBytes_append, List.append_assoc]
      exact List.prefix_append _ _
    have hnl : (0x0a : UInt8) ∉ asBytes verbose.statusLine := by
      intro hmem
      have hchar := (mem_asBytes (c := '\n') (by decide)).mp hmem
      exact absurd (oneLine_statusLine verbose_wellFormed _ hchar) (by decide)
    have hlong : maxHeaderBytes < (asBytes verbose.statusLine).length := by
      have hreason : asBytes verbose.reason = List.replicate 65536 0x61 := by
        have hchar : String.utf8EncodeChar 'a' = [0x61] := rfl
        rw [verbose, asBytes_eq_flatMap, String.toList_ofList, List.flatMap_replicate, hchar,
          List.flatten_replicate_singleton]
      rw [Reply.statusLine, asBytes_append, List.length_append, hreason, List.length_replicate,
        asBytes_append, List.length_append]
      exact Nat.lt_add_of_pos_left (Nat.add_pos_right _ (by decide))
    have hverbose : stream (delivering verbose.wire).reads =
        (asBytes verbose.statusLine).map .ok ++ rest.map .ok := by
      rw [stream_delivering, ← List.map_append, hrest]
    obtain ⟨left, hline⟩ := readCappedLine_long hnl hlong hverbose
    have hread : readResponse (delivering verbose.wire).reads =
        (.error (.badResponse "headers exceed 64 KiB"), left) := by
      rw [readResponse, hline]
    exact options_error rfl hread

end Rsurl.Rtsp
