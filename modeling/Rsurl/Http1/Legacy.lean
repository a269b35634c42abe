import Rsurl.Http1.Head
import Rsurl.Library.Loop

/-!
# The reader the machine mirrors

The same response read line by line from a buffered connection, as the paths through a custom
connector or a proxy tunnel do. Where the body ends is decided four times in the crate: by
`body_mode` of the machine and by the three functions here.
-/

namespace Rsurl.Http1

open Library Text Hpack
open Library.Loop (Turn)
open Http2 (maxBodyBytes)

/-- A connection: what it delivers before it ends, and whether that end came without the
`close_notify` that would vouch for it. -/
structure Reader where
  input : Bytes
  truncated : Bool := false
  deriving DecidableEq, Repr

def Reader.drop (r : Reader) (n : Nat) : Reader := { r with input := r.input.drop n }

/-! ## Lines -/

/-- Read through the next line feed, or to the end of the input; nothing is read at the end. -/
def readLineCapped (r : Reader) (max : Nat) : Except Error (Bytes × Reader) :=
  match (r.input.take (max + 1)).findIdx? (· == 0x0a) with
  | some i => .ok (r.input.take (i + 1), r.drop (i + 1))
  | none =>
    if max < r.input.length then .error (.badResponse "response line exceeds 64 KiB")
    else .ok (r.input, r.drop r.input.length)

theorem readLineCapped_length {r r' : Reader} {raw : Bytes} {max : Nat}
    (h : readLineCapped r max = .ok (raw, r')) :
    r.input = raw ++ r'.input ∧ r'.truncated = r.truncated := by
  unfold readLineCapped at h
  split at h
  · cases h
    exact ⟨(List.take_append_drop _ _).symm, rfl⟩
  · split at h
    · cases h
    · cases h
      exact ⟨by simp [Reader.drop], rfl⟩

/-- One header line. -/
def readHeaderLine (s : List Header × Nat × Reader) :
    Turn (List Header × Nat × Reader) (Except Error (List Header × Reader)) :=
  let (headers, headerBytes, r) := s
  match readLineCapped r maxHeaderBytes with
  | .error e => .done (.error e)
  | .ok (raw, r) =>
    if raw = [] then .done (.error .unexpectedEof)
    else if maxHeaderBytes < headerBytes + raw.length then
      .done (.error (.badResponse "headers exceed 64 KiB"))
    else
      let trimmed := trimEndMatches isEol (fromUtf8Lossy raw)
      if trimmed = "" then .done (.ok (headers, r))
      else match pushHeaderLine headers trimmed with
        | .error e => .done (.error e)
        | .ok headers => .next (headers, headerBytes + raw.length, r)

theorem readHeaderLine_lowers : Loop.Lowers readHeaderLine fun s => s.2.2.input.length := by
  rintro ⟨headers, headerBytes, r⟩ s' hs
  unfold readHeaderLine at hs
  simp only at hs
  split at hs
  · cases hs
  · rename_i raw r' hline
    have := (readLineCapped_length hline).1
    split at hs
    · cases hs
    · rename_i hne
      split at hs
      · cases hs
      · split at hs
        · cases hs
        · split at hs
          · cases hs
          · cases hs
            have := List.length_pos_iff.mpr hne
            simp_all

/-- A status line and its header lines, interim or final. -/
def readOneHead (r : Reader) : Except Error (ResponseHead × Reader) :=
  match readLineCapped r maxHeaderBytes with
  | .error e => .error e
  | .ok (raw, r) =>
    if raw = [] then .error .unexpectedEof
    else match parseStatusLine (trimEndMatches isEol (fromUtf8Lossy raw)) with
      | .error e => .error e
      | .ok (version, status, reason) =>
        match Loop.run readHeaderLine _ readHeaderLine_lowers ([], 0, r) with
        | .error e => .error e
        | .ok (headers, r) => .ok ({ version, status, reason, headers }, r)

/-- Up to `n` heads, the last of them final. -/
def readHeads : Nat → Reader → Except Error (ResponseHead × Reader)
  | 0, _ => .error (.badResponse "too many interim (1xx) responses")
  | n + 1, r => match readOneHead r with
    | .error e => .error e
    | .ok (head, r) => if isInterimStatus head.status then readHeads n r else .ok (head, r)

def readHead (r : Reader) : Except Error (ResponseHead × Reader) :=
  readHeads (maxInterimResponses + 1) r

/-! ## Chunks -/

def readChunkSize (r : Reader) : Except Error (Nat × Reader) :=
  match readLineCapped r maxHeaderBytes with
  | .error e => .error e
  | .ok (raw, r) =>
    if raw = [] then .error .unexpectedEof
    else match parseChunkSizeText (fromUtf8Lossy raw) with
      | .error e => .error e
      | .ok size => .ok (size, r)

/-- One trailer line; the end of the input ends the trailers too. -/
def drainTrailerLine (s : Nat × Reader) : Turn (Nat × Reader) (Except Error Reader) :=
  let (trailerBytes, r) := s
  match readLineCapped r maxHeaderBytes with
  | .error e => .done (.error e)
  | .ok (raw, r) =>
    if raw = [] || trimEndMatches isEol (fromUtf8Lossy raw) = "" then .done (.ok r)
    else if maxHeaderBytes < trailerBytes + raw.length then
      .done (.error (.badResponse "trailer block too large"))
    else .next (trailerBytes + raw.length, r)

theorem drainTrailerLine_lowers : Loop.Lowers drainTrailerLine fun s => s.2.input.length := by
  rintro ⟨trailerBytes, r⟩ s' hs
  unfold drainTrailerLine at hs
  simp only at hs
  split at hs
  · cases hs
  · rename_i raw r' hline
    have := (readLineCapped_length hline).1
    split at hs
    · cases hs
    · rename_i hne
      split at hs
      · cases hs
      · cases hs
        have hraw : raw ≠ [] := by
          rintro rfl
          simp at hne
        have := List.length_pos_iff.mpr hraw
        simp_all

def drainChunkTrailers (r : Reader) : Except Error Reader :=
  Loop.run drainTrailerLine _ drainTrailerLine_lowers (0, r)

def readChunkCrlf (r : Reader) : Except Error Reader :=
  if r.input.length < 2 then .error (.io .unexpectedEof "failed to fill whole buffer")
  else if r.input.take 2 ≠ [0x0d, 0x0a] then .error (.badResponse "missing CRLF after chunk")
  else .ok (r.drop 2)

/-- One chunk. -/
def readChunk (s : Bytes × Reader) : Turn (Bytes × Reader) (Except Error (Bytes × Reader)) :=
  let (body, r) := s
  match readChunkSize r with
  | .error e => .done (.error e)
  | .ok (size, r) =>
    if maxBodyBytes < body.length + size then .done (.error (.badResponse "body too large"))
    else if size = 0 then
      match drainChunkTrailers r with
      | .error e => .done (.error e)
      | .ok r => .done (.ok (body, r))
    else if r.input.length < size then .done (.error .unexpectedEof)
    else match readChunkCrlf (r.drop size) with
      | .error e => .done (.error e)
      | .ok r' => .next (body ++ r.input.take size, r')

theorem readChunkSize_length {r r' : Reader} {size : Nat} (h : readChunkSize r = .ok (size, r')) :
    r'.input.length < r.input.length := by
  unfold readChunkSize at h
  split at h
  · cases h
  · rename_i raw r₁ hline
    have := (readLineCapped_length hline).1
    split at h
    · cases h
    · rename_i hne
      split at h
      · cases h
      · cases h
        have := List.length_pos_iff.mpr hne
        simp_all

theorem readChunk_lowers : Loop.Lowers readChunk fun s => s.2.input.length := by
  rintro ⟨body, r⟩ s' hs
  unfold readChunk at hs
  simp only at hs
  split at hs
  · cases hs
  · rename_i size r₁ hsize
    have hlt := readChunkSize_length hsize
    split at hs
    · cases hs
    · split at hs
      · split at hs <;> cases hs
      · split at hs
        · cases hs
        · split at hs
          · cases hs
          · rename_i r₂ hcrlf
            cases hs
            unfold readChunkCrlf at hcrlf
            split at hcrlf
            · cases hcrlf
            · split at hcrlf
              · cases hcrlf
              · cases hcrlf
                simp only [Reader.drop, List.length_drop]
                omega

def readChunked (r : Reader) : Except Error (Bytes × Reader) :=
  Loop.run readChunk _ readChunk_lowers ([], r)

/-! ## Bodies -/

/-- How `read_body` frames the body. -/
def readBodyMode (headers : List Header) (status : Nat) (method : String) :
    Except Error BodyMode :=
  if bodyless method status then .ok .none
  else if hasHeader headers "transfer-encoding" && hasHeader headers "content-length" then
    .error (.badResponse "both Transfer-Encoding and Content-Length present")
  else if isChunked headers then .ok .chunked
  -- no check for a transfer coding other than `chunked`
  else match parseContentLength headers with
    | .error e => .error e
    | .ok none => .ok .eof
    | .ok (some len) =>
      if maxBodyBytes < len then .error (.badResponse s!"body too large: {len}")
      else .ok (.length len)

/-- Read the body in the frame that was chosen. -/
def readBodyIn (r : Reader) : BodyMode → Except Error (Bytes × Reader)
  | .none => .ok ([], r)
  | .chunked => readChunked r
  | .length len =>
    if r.input.length < len then .error .unexpectedEof
    else .ok (r.input.take len, r.drop len)
  | .eof =>
    -- what is beyond the cap is left unread, and then the end is not seen either
    if r.truncated && r.input.length < maxBodyBytes then .error .unexpectedEof
    else .ok (r.input.take maxBodyBytes, r.drop maxBodyBytes)

def readBody (r : Reader) (headers : List Header) (status : Nat) (method : String) :
    Except Error (Bytes × Reader) :=
  match readBodyMode headers status method with
  | .error e => .error e
  | .ok mode => readBodyIn r mode

/-- How `stream_body` frames the body. -/
def streamBodyMode (headers : List Header) (status : Nat) (method : String) :
    Except Error BodyMode :=
  if bodyless method status then .ok .none
  -- no check for `Transfer-Encoding` beside `Content-Length`
  else if isChunked headers then .ok .chunked
  else match parseContentLength headers with
    | .error e => .error e
    | .ok none => .ok .eof
    | .ok (some len) => .ok (.length len)

/-- How `build_body_reader` frames the body. -/
def buildBodyReaderMode (method : String) (head : ResponseHead) : Except Error BodyMode :=
  if bodyless method head.status then .ok .none
  else if hasHeader head.headers "transfer-encoding" && hasHeader head.headers "content-length" then
    .error (.badResponse "both Transfer-Encoding and Content-Length present")
  else if isChunked head.headers then .ok .chunked
  else match parseContentLength head.headers with
    | .error e => .error e
    | .ok none => .ok .eof
    | .ok (some len) => .ok (.length len)

/-! ## One framing rule -/

/-- A response that may have a body and whose `Transfer-Encoding` cannot be obeyed: it comes with a
`Content-Length`, or it is not `chunked`. -/
def unframable (method : String) (head : ResponseHead) : Bool :=
  !bodyless method head.status && hasHeader head.headers "transfer-encoding" &&
    (hasHeader head.headers "content-length" || !isChunked head.headers)

/-- The in-memory cap: what a decider that buffers the body makes of a streaming one's choice. -/
def capped : Except Error BodyMode → Except Error BodyMode
  | .ok (.length len) =>
    if maxBodyBytes < len then .error (.badResponse s!"body too large: {len}") else .ok (.length len)
  | choice => choice

variable {method : String} {head : ResponseHead}

theorem hasHeader_of_isChunked {headers : List Header} (h : isChunked headers = true) :
    hasHeader headers "transfer-encoding" = true := by
  obtain ⟨field, hmem, hfield⟩ := List.any_eq_true.mp h
  exact List.any_eq_true.mpr ⟨field, hmem, (Bool.and_eq_true_iff.mp hfield).1⟩

/-- A buffering exchange caps what a streaming one would take. -/
theorem bodyMode_capped (method : String) (head : ResponseHead) :
    bodyMode method head false = capped (bodyMode method head true) := by
  unfold bodyMode
  split
  · rfl
  · split
    · rfl
    · split
      · rfl
      · split
        · rfl
        · cases parseContentLength head.headers with
          | error e => rfl
          | ok length => cases length <;> simp [capped]

theorem readBodyMode_capped (method : String) (head : ResponseHead) :
    readBodyMode head.headers head.status method = capped (buildBodyReaderMode method head) := by
  unfold readBodyMode buildBodyReaderMode
  split
  · rfl
  · split
    · rfl
    · split
      · rfl
      · cases parseContentLength head.headers with
        | error e => rfl
        | ok length => cases length <;> simp [capped]

theorem streaming_modes (h : unframable method head = false) :
    streamBodyMode head.headers head.status method = bodyMode method head true ∧
      buildBodyReaderMode method head = bodyMode method head true := by
  unfold streamBodyMode buildBodyReaderMode bodyMode
  by_cases hb : bodyless method head.status = true
  · simp [hb]
  · rw [Bool.not_eq_true] at hb
    cases hte : hasHeader head.headers "transfer-encoding" with
    | true =>
      simp only [unframable, hb, hte, Bool.not_false, Bool.true_and, Bool.or_eq_false_iff,
        Bool.not_eq_false'] at h
      simp [hb, h]
    | false =>
      have hc : isChunked head.headers = false := by
        cases hc : isChunked head.headers with
        | false => rfl
        | true => rw [hasHeader_of_isChunked hc] at hte; cases hte
      cases parseContentLength head.headers with
      | error e => simp [hb, hc]
      | ok length => cases length <;> simp [hb, hc]

/-- Outside responses whose `Transfer-Encoding` cannot be obeyed, the deciders choose alike: those
that stream choose the same, and those that buffer choose that up to the cap. The machine rejects
all the others, and two more deciders reject `Transfer-Encoding` beside `Content-Length`. -/
theorem one_framing_rule (method : String) (head : ResponseHead) :
    (unframable method head = false →
      streamBodyMode head.headers head.status method = bodyMode method head true ∧
      buildBodyReaderMode method head = bodyMode method head true ∧
      bodyMode method head false = capped (bodyMode method head true) ∧
      readBodyMode head.headers head.status method = capped (bodyMode method head true)) ∧
    (unframable method head = true →
      (∀ streaming, bodyMode method head streaming = .error (.badResponse
        (if hasHeader head.headers "content-length" then
          "both Transfer-Encoding and Content-Length present"
        else "unsupported Transfer-Encoding"))) ∧
      (hasHeader head.headers "content-length" = true →
        readBodyMode head.headers head.status method =
          .error (.badResponse "both Transfer-Encoding and Content-Length present") ∧
        buildBodyReaderMode method head =
          .error (.badResponse "both Transfer-Encoding and Content-Length present"))) := by
  refine ⟨fun h => ?_, fun h => ?_⟩
  · obtain ⟨hstream, hbuild⟩ := streaming_modes h
    refine ⟨hstream, hbuild, bodyMode_capped method head, ?_⟩
    rw [readBodyMode_capped, hbuild]
  · simp only [unframable, Bool.and_eq_true, Bool.not_eq_true', Bool.or_eq_true] at h
    obtain ⟨⟨hb, hte⟩, hbad⟩ := h
    refine ⟨fun streaming => ?_, fun hcl => ?_⟩
    · unfold bodyMode
      cases hcl : hasHeader head.headers "content-length" with
      | true => simp [hb, hte]
      | false =>
        have hc : isChunked head.headers = false := by simpa [hcl] using hbad
        simp [hb, hte, hc]
    · exact ⟨by simp [readBodyMode, hb, hte, hcl], by simp [buildBodyReaderMode, hb, hte, hcl]⟩

theorem one_framing_rule_cases :
    (streamBodyMode [("content-length", "5, 5")] 200 "GET" = .ok (.length 5) ∧
      bodyMode "GET" ⟨"HTTP/1.1", 200, "OK", [("content-length", "5, 5")]⟩ true =
        .ok (.length 5)) ∧
    readBodyMode [("Transfer-Encoding", "chunked"), ("Content-Length", "5")] 200 "GET" =
      .error (.badResponse "both Transfer-Encoding and Content-Length present") := by
  have hplain := (one_framing_rule "GET" ⟨"HTTP/1.1", 200, "OK", [("content-length", "5, 5")]⟩).1
    (by decide)
  have hmode : bodyMode "GET" ⟨"HTTP/1.1", 200, "OK", [("content-length", "5, 5")]⟩ true =
      .ok (.length 5) := by decide +kernel
  exact ⟨⟨hplain.1.trans hmode, hmode⟩, ((one_framing_rule "GET" ⟨"HTTP/1.1", 200, "OK",
    [("Transfer-Encoding", "chunked"), ("Content-Length", "5")]⟩).2 (by decide)).2
      (by decide) |>.1⟩

/-- The four deciders on a length beyond the cap, on a transfer coding that is not `chunked`, and on
both framings at once. -/
theorem framings_differ :
    (readBodyMode [("Content-Length", "268435457")] 200 "GET" =
        .error (.badResponse "body too large: 268435457") ∧
      streamBodyMode [("Content-Length", "268435457")] 200 "GET" = .ok (.length 268435457)) ∧
    (bodyMode "GET" ⟨"HTTP/1.1", 200, "OK", [("Transfer-Encoding", "gzip")]⟩ false =
        .error (.badResponse "unsupported Transfer-Encoding") ∧
      readBodyMode [("Transfer-Encoding", "gzip")] 200 "GET" = .ok .eof ∧
      streamBodyMode [("Transfer-Encoding", "gzip")] 200 "GET" = .ok .eof ∧
      buildBodyReaderMode "GET" ⟨"HTTP/1.1", 200, "OK", [("Transfer-Encoding", "gzip")]⟩ =
        .ok .eof) ∧
    (readBodyMode [("Transfer-Encoding", "chunked"), ("Content-Length", "5")] 200 "GET" =
        .error (.badResponse "both Transfer-Encoding and Content-Length present") ∧
      streamBodyMode [("Transfer-Encoding", "chunked"), ("Content-Length", "5")] 200 "GET" =
        .ok .chunked) := by
  decide +kernel

end Rsurl.Http1
