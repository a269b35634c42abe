import Rsurl.Http2.Stream

/-!
# Responses

How a finished stream becomes a response: the head is split into its status and regular fields,
and the content codings the client knows are peeled off the body. The decompressors themselves
are a parameter.
-/

namespace Rsurl.Http2

open Text Hpack

structure Response where
  status : Nat
  reason : String
  version : String
  headers : List Header
  body : Bytes
  finalUrl : String
  deriving DecidableEq, Repr

/-! ## Content codings -/

inductive Algorithm where
  | gzip
  | zlib
  | deflate
  | zstd
  | brotli
  | lzw
  deriving DecidableEq, Repr

/-- One-shot decompression with an output budget, for every algorithm. -/
structure Codecs where
  decodeWith : Algorithm → Bytes → Nat → Except String Bytes

/-- Decompressors that fail on every input. -/
def Codecs.unavailable : Codecs := ⟨fun _ _ _ => .error "not available"⟩

inductive Layer where
  | gzip
  | deflate
  | zstd
  | brotli
  | compress
  | identity
  deriving DecidableEq, Repr

def Layer.parse (token : String) : Option Layer :=
  if eqIgnoreAsciiCase token "gzip" || eqIgnoreAsciiCase token "x-gzip" then some .gzip
  else if eqIgnoreAsciiCase token "deflate" then some .deflate
  else if eqIgnoreAsciiCase token "zstd" then some .zstd
  else if eqIgnoreAsciiCase token "br" then some .brotli
  else if eqIgnoreAsciiCase token "compress" || eqIgnoreAsciiCase token "x-compress" then
    some .compress
  else if eqIgnoreAsciiCase token "identity" then some .identity
  else none

def maxEncodingLayers : Nat := 3
def maxBodyBytes : Nat := 256 * 1024 * 1024

structure Decoded where
  body : Bytes
  decoded : Bool
  remaining : String
  deriving DecidableEq, Repr

namespace Codecs

def decodeNamed (codecs : Codecs) (name : String) (alg : Algorithm) (src : Bytes)
    (budget : Nat) : Except Error Bytes :=
  match codecs.decodeWith alg src budget with
  | .ok out => .ok out
  | .error e => .error (.badResponse s!"{name} decode failed: {e}")

/-- `deflate` is zlib framing, or a raw stream when that fails. -/
def inflateZlib (codecs : Codecs) (src : Bytes) (budget : Nat) : Except Error Bytes :=
  match codecs.decodeWith .zlib src budget with
  | .ok out => .ok out
  | .error zlibErr => match codecs.decodeWith .deflate src budget with
    | .ok out => .ok out
    | .error _ => .error (.badResponse s!"deflate decode failed: {zlibErr}")

def decodeLayer (codecs : Codecs) (layer : Layer) (src : Bytes) (budget : Nat) :
    Except Error Bytes :=
  match layer with
  | .gzip => codecs.decodeNamed "gzip" .gzip src budget
  | .deflate => codecs.inflateZlib src budget
  | .zstd => codecs.decodeNamed "zstd" .zstd src budget
  | .brotli => codecs.decodeNamed "brotli" .brotli src budget
  | .compress => codecs.decodeNamed "compress" .lzw src budget
  | .identity => .ok src

/-- Peel layers off, outermost first; `inner` lists the layers still on, outermost first. -/
def peel (codecs : Codecs) : List String → Bytes → Bool → Nat → Except Error Decoded
  | [], current, peeled, _ => .ok ⟨current, peeled, ""⟩
  | token :: inner, current, peeled, budget =>
    match Layer.parse token with
    | none => .ok ⟨current, peeled, ", ".intercalate (token :: inner).reverse⟩
    | some .identity => codecs.peel inner current true budget
    | some layer => match codecs.decodeLayer layer current budget with
      | .error e => .error e
      | .ok out => codecs.peel inner out true (budget - out.length)

def decodeBody (codecs : Codecs) (body : Bytes) (contentEncoding : String) :
    Except Error Decoded :=
  let layers := ((split ',' contentEncoding).map trim).filter (· ≠ "")
  if layers.isEmpty then .ok ⟨body, false, ""⟩
  else if maxEncodingLayers < layers.length then
    .error (.badResponse
      s!"too many Content-Encoding layers ({layers.length}, max {maxEncodingLayers})")
  else codecs.peel layers.reverse body false maxBodyBytes

end Codecs

def contentEncoding (headers : List Header) : Option String :=
  let parts := (headers.filter fun h => eqIgnoreAsciiCase h.1 "content-encoding").map Prod.snd
  if parts.isEmpty then none else some (", ".intercalate parts)

def stripAfterDecode (headers : List Header) : List Header :=
  headers.filter fun h =>
    !eqIgnoreAsciiCase h.1 "content-encoding" && !eqIgnoreAsciiCase h.1 "content-length"

def headersAfterDecode (headers : List Header) (out : Decoded) : List Header :=
  if out.remaining = "" then stripAfterDecode headers
  else stripAfterDecode headers ++ [("Content-Encoding", out.remaining)]

def maybeDecodeBody (codecs : Codecs) (headers : List Header) (body : Bytes) (decompress : Bool) :
    Except Error (List Header × Bytes) :=
  if !decompress || body.isEmpty then .ok (headers, body)
  else match contentEncoding headers with
    | none => .ok (headers, body)
    | some enc => match codecs.decodeBody body enc with
      | .error e => .error e
      | .ok out =>
        if out.decoded then .ok (headersAfterDecode headers out, out.body)
        else .ok (headers, out.body)

/-! ## From a stream -/

/-- The status a received head ends with, and its regular fields in order. -/
def splitFields (acc : Option Nat × List Header) (h : Header) :
    Except Error (Option Nat × List Header) :=
  if h.1 = ":status" then
    match parseUnsigned 65535 h.2 with
    | some status => .ok (some status, acc.2)
    | none => .error (.badResponse s!"bad :status {dbgStr h.2}")
  else if (stripPrefix ':' h.1).isSome then .ok acc
  else .ok (acc.1, acc.2 ++ [h])

def splitResponseHead (headers : Option (List Header)) : Except Error (Nat × List Header) :=
  match headers with
  | none => .error (.badResponse "response ended before any HEADERS frame")
  | some headers => match headers.foldlM splitFields (none, []) with
    | .error e => .error e
    | .ok (none, _) => .error (.badResponse "response missing :status")
    | .ok (some status, clean) => .ok (status, clean)

def buildResponseFromStream (codecs : Codecs) (s : Stream) (decompress : Bool) :
    Except Error Response :=
  match splitResponseHead s.responseHeaders with
  | .error e => .error e
  | .ok (status, clean) => match maybeDecodeBody codecs clean s.body decompress with
    | .error e => .error e
    | .ok (headers, body) => .ok {
        status, reason := "", version := "HTTP/2", headers, body, finalUrl := "" }

/-! ## The status -/

theorem stripPrefix_status {name : String} :
    stripPrefix ':' name = some "status" ↔ name = ":status" := by
  constructor
  · intro h
    unfold stripPrefix at h
    split at h
    · cases h
    · rename_i d rest hlist
      split at h
      · rename_i hd
        have hrest : rest = "status".toList := by
          rw [← Option.some.inj h, String.toList_ofList]
        rw [← String.ofList_toList (s := name), hlist, hd, hrest]
        rfl
      · cases h
  · rintro rfl
    decide +kernel

theorem regular_status {scan scan' : FieldScan} {name value : String}
    (h : scan.regular false name value = .ok scan') : scan'.status = scan.status := by
  unfold FieldScan.regular at h
  simp only at h
  repeat' split at h
  all_goals cases h
  all_goals rfl

theorem pseudo_status {scan scan' : FieldScan} {pseudo value : String}
    (h : scan.pseudo false pseudo value = .ok scan') :
    pseudo = "status" ∧ scan'.status = parseUnsigned 65535 value := by
  unfold FieldScan.pseudo at h
  simp only [Bool.false_eq_true, if_false] at h
  split at h
  · cases h
  · split at h
    · cases h
    · rename_i hname
      split at h
      · cases h
      · split at h
        · rename_i code hcode
          cases h
          refine ⟨by simpa using hname, ?_⟩
          split at hcode
          · exact (Option.filter_eq_some_iff.mp hcode).1.symm
          · cases hcode
        · cases h

/-- Both walks over a head agree on its status. -/
theorem status_field {scan scan' : FieldScan} {acc acc' : Option Nat × List Header} {h : Header}
    (heq : scan.status = acc.1) (hscan : scan.field false h = .ok scan')
    (hacc : splitFields acc h = .ok acc') : scan'.status = acc'.1 := by
  unfold FieldScan.field at hscan
  unfold splitFields at hacc
  split at hscan
  · rename_i rest hstrip
    obtain ⟨rfl, hstatus⟩ := pseudo_status hscan
    rw [if_pos (stripPrefix_status.mp hstrip)] at hacc
    split at hacc
    · rename_i status hparse
      cases hacc
      rw [hstatus, hparse]
    · cases hacc
  · rename_i hstrip
    have hne : h.1 ≠ ":status" := fun hname => by
      rw [stripPrefix_status.mpr hname] at hstrip
      cases hstrip
    rw [if_neg hne, hstrip] at hacc
    cases hacc
    exact (regular_status hscan).trans heq

theorem status_fold {head : List Header} {scan scan' : FieldScan}
    {acc acc' : Option Nat × List Header} (heq : scan.status = acc.1)
    (hscan : head.foldlM (FieldScan.field false) scan = .ok scan')
    (hacc : head.foldlM splitFields acc = .ok acc') : scan'.status = acc'.1 := by
  induction head generalizing scan acc with
  | nil =>
    cases hscan
    cases hacc
    exact heq
  | cons field rest ih =>
    rw [List.foldlM_cons] at hscan hacc
    cases hf : scan.field false field with
    | error m =>
      rw [hf] at hscan
      cases hscan
    | ok scan₁ =>
      cases hs : splitFields acc field with
      | error e =>
        rw [hs] at hacc
        cases hacc
      | ok acc₁ =>
        rw [hf] at hscan
        rw [hs] at hacc
        exact ih (status_field heq hf hs) hscan hacc

/-- The status of a head that was validated is the one its response gets. -/
theorem status_of_valid {head : List Header} {info : ResponseFieldInfo} {status : Nat}
    {clean : List Header} (hvalid : validateResponseFields head false = .ok info)
    (hsplit : splitResponseHead (some head) = .ok (status, clean)) : status = info.status := by
  unfold validateResponseFields at hvalid
  unfold splitResponseHead at hsplit
  split at hvalid
  · cases hvalid
  · rename_i scan hscan
    simp only [Bool.false_eq_true, if_false] at hvalid hsplit
    split at hsplit
    · cases hsplit
    · cases hsplit
    · rename_i hacc
      cases hsplit
      have hstatus : scan.status = some status := status_fold rfl hscan hacc
      rw [hstatus] at hvalid
      cases hvalid
      rfl

theorem buildResponseFromStream_status {codecs : Codecs} {s : Stream} {decompress : Bool}
    {resp : Response} (h : buildResponseFromStream codecs s decompress = .ok resp) :
    ∃ clean, splitResponseHead s.responseHeaders = .ok (resp.status, clean) := by
  unfold buildResponseFromStream at h
  split at h
  · cases h
  · rename_i status clean hsplit
    split at h
    · cases h
    · cases h
      exact ⟨clean, hsplit⟩

end Rsurl.Http2
