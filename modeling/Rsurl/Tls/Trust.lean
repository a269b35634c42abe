import Rsurl.Http1.Transfer
import Rsurl.Io.Machine

/-!
# The secure transfer and its trust decision

The exchange of a request over TLS. The chain of the peer is looked at once the exchange is over,
so what the request holds has been sent by then.
-/

/-!
## TLS around a machine

A TLS engine turns ciphertext into plaintext and back; a client wraps an engine and the machine of
an application into one machine that speaks ciphertext. What happens inside the engine is left
open. The client keeps account of the plaintext on both sides.
-/

namespace Rsurl.Tls

open Library Io
open Library.Loop (Turn)

/-- A TLS connection as a pure state machine. -/
class TlsEngine (E : Type) where
  isHandshaking : E → Bool
  /-- Take all of the ciphertext. -/
  feedIncoming : E → Bytes → Outcome E Unit
  drainOutgoing : E → Bytes × E
  /-- Up to so many bytes of plaintext; none when there is none. -/
  readPlaintext : E → Nat → Outcome E Bytes
  writePlaintext : E → Bytes → E
  /-- The certificates of the peer, its own first. -/
  peerCertificates : E → List Bytes
  receivedCloseNotify : E → Bool
  /-- Plaintext that waits to be read. -/
  buffered : E → Nat
  read_lowers : ∀ (e : E) (n : Nat) (bytes : Bytes) (e' : E),
    readPlaintext e n = .ok bytes e' → bytes ≠ [] → buffered e' < buffered e

export TlsEngine (isHandshaking feedIncoming drainOutgoing readPlaintext writePlaintext
  peerCertificates receivedCloseNotify buffered)

structure TlsClient (E M : Type) where
  tls : E
  inner : M
  /-- The plaintext handed to the engine. -/
  written : Bytes
  /-- The plaintext handed to the inner machine. -/
  delivered : Bytes

namespace TlsClient

variable {E M Event : Type} [TlsEngine E] [Machine M Event]

def new (tls : E) (inner : M) : TlsClient E M := ⟨tls, inner, [], []⟩

def scratchLen : Nat := 16 * 1024

def pumpTurn (c : TlsClient E M) : Turn (TlsClient E M) (Outcome (TlsClient E M) Unit) :=
  match readPlaintext c.tls scratchLen with
  | .error e tls => .done (.error e { c with tls })
  | .ok [] tls => .done (.ok () { c with tls })
  | .ok chunk tls => match Io.handleInput c.inner chunk with
    | .error e inner => .done (.error e { c with tls, inner, delivered := c.delivered ++ chunk })
    | .ok _ inner => .next { c with tls, inner, delivered := c.delivered ++ chunk }

theorem pumpTurn_lowers :
    Loop.Lowers (pumpTurn (E := E) (M := M)) fun c => buffered c.tls := by
  intro c c' h
  unfold pumpTurn at h
  split at h
  · cases h
  · cases h
  · rename_i chunk tls hsome hread
    split at h
    · cases h
    · cases h
      exact TlsEngine.read_lowers _ _ _ _ hread hsome

/-- Hand the inner machine what the engine has decrypted. -/
def pumpInnerInput (c : TlsClient E M) : Outcome (TlsClient E M) Unit :=
  Loop.run pumpTurn _ pumpTurn_lowers c

def handleInput (c : TlsClient E M) (wire : Bytes) : Outcome (TlsClient E M) Nat :=
  match feedIncoming c.tls wire with
  | .error e tls => .error e { c with tls }
  | .ok _ tls =>
    if isHandshaking tls then .ok wire.length { c with tls }
    else (pumpInnerInput { c with tls }).andThen fun _ c => .ok wire.length c

/-- Tell the inner machine of the end. -/
def innerEof (c : TlsClient E M) : Outcome (TlsClient E M) Unit :=
  (Io.handleEof c.inner).mapState fun inner => { c with inner }

def handleEof (c : TlsClient E M) : Outcome (TlsClient E M) Unit :=
  if isHandshaking c.tls then c.innerEof
  else c.pumpInnerInput.andThen fun _ c => c.innerEof

variable [Drains M]

/-- Hand the engine what the inner machine has to send, once there are keys. -/
def encryptQueued (c : TlsClient E M) : TlsClient E M :=
  if isHandshaking c.tls then c
  else
    let (plaintext, inner) := pollAll c.inner
    if plaintext.isEmpty then { c with inner }
    else { c with
      inner, tls := writePlaintext c.tls plaintext, written := c.written ++ plaintext }

def pollTransmit (c : TlsClient E M) : Bytes × TlsClient E M :=
  let c := c.encryptQueued
  let (bytes, tls) := drainOutgoing c.tls
  (bytes, { c with tls })

instance : Machine (TlsClient E M) Event where
  handleInput := handleInput
  handleEof := handleEof
  pollTransmit := pollTransmit
  pollEvent c := (Io.pollEvent c.inner).map fun (ev, inner) => (ev, { c with inner })
  isFinished c := Io.isFinished c.inner

/-! ## What input keeps -/

/-- Kept by every change that input or the end of the connection makes. -/
structure Kept (P : TlsClient E M → Prop) : Prop where
  engine : ∀ c tls, P c → P { c with tls }
  input : ∀ c chunk, P c → P { c with
    inner := (Io.handleInput c.inner chunk).state, delivered := c.delivered ++ chunk }
  eof : ∀ c, P c → P { c with inner := (Io.handleEof c.inner).state }

omit [Drains M]

variable {P : TlsClient E M → Prop}

theorem Kept.pump (h : Kept P) {c : TlsClient E M} (hc : P c) : P c.pumpInnerInput.state := by
  refine Loop.run_rule pumpTurn_lowers (fun c r => P c → P r.state) ?_ ?_ c hc
  · intro c r hr hc
    unfold pumpTurn at hr
    split at hr
    · cases hr
      exact h.engine c _ hc
    · cases hr
      exact h.engine c _ hc
    · rename_i chunk tls _ _
      have hnext := h.input _ chunk (h.engine c tls hc)
      split at hr
      · rename_i hinput
        cases hr
        rw [hinput] at hnext
        exact hnext
      · cases hr
  · intro c c' r hc' ih hc
    unfold pumpTurn at hc'
    split at hc'
    · cases hc'
    · cases hc'
    · rename_i chunk tls _ _
      have hnext := h.input _ chunk (h.engine c tls hc)
      split at hc'
      · cases hc'
      · rename_i hinput
        cases hc'
        rw [hinput] at hnext
        exact ih hnext

theorem Kept.handleInput (h : Kept P) {c : TlsClient E M} (hc : P c) (wire : Bytes) :
    P (c.handleInput wire).state := by
  unfold TlsClient.handleInput
  split
  · exact h.engine c _ hc
  · rename_i tls _
    split
    · exact h.engine c _ hc
    · have hpump := h.pump (h.engine c tls hc)
      cases hr : pumpInnerInput { c with tls } with
      | ok u c' =>
        rw [hr] at hpump
        exact hpump
      | error e c' =>
        rw [hr] at hpump
        exact hpump

theorem innerEof_state (c : TlsClient E M) :
    c.innerEof.state = { c with inner := (Io.handleEof c.inner).state } := by
  unfold innerEof
  cases Io.handleEof c.inner <;> rfl

theorem Kept.handleEof (h : Kept P) {c : TlsClient E M} (hc : P c) : P c.handleEof.state := by
  have heof {c : TlsClient E M} (hc : P c) : P c.innerEof.state := by
    rw [innerEof_state]
    exact h.eof c hc
  unfold TlsClient.handleEof
  split
  · exact heof hc
  · have hpump := h.pump hc
    cases hr : c.pumpInnerInput with
    | ok u c' =>
      rw [hr] at hpump
      exact heof hpump
    | error e c' =>
      rw [hr] at hpump
      exact hpump

theorem Kept.feed [Drains M] (h : Kept P) {c : TlsClient E M} (hc : P c) (pending : Bytes) :
    P (Io.feed c pending).state :=
  @feed_keeps _ _ _ P (fun _ wire hm => h.handleInput hm wire) c hc pending

end TlsClient

end Rsurl.Tls

namespace Rsurl.Tls

open Library Io Text
open Library.Loop (Turn)
open Http1 (ClientExchange Collector Event ResponseHead Run driveCollect finishTransfer
  responseIsReusable hasHeader bodyless collect)
open Http2 (Codecs effectiveMethod)
open Http (writeRequest)

/-! ## The policy -/

/-- What is read off a certificate. -/
structure X509 where
  /-- The hash of the public key, where there is one to be found. -/
  leafSpkiSha256 : Bytes → Option Bytes
  leafHasSan : Bytes → Bool

/-- What a request asks of the certificates of the server. -/
structure TrustPolicy where
  serverName : String
  verify : Bool := true
  /-- Whether the caller accepts the chain of a server. -/
  callback : Option (String → List Bytes → Bool) := none
  pins : List Bytes := []

variable (certs : X509) (policy : TrustPolicy)

def spkiPinMatches (leaf : Bytes) : Bool := (certs.leafSpkiSha256 leaf).any policy.pins.contains

/-- Whether the callback has settled the matter. -/
def enforcePinsThenCallback (chain : List Bytes) : Except Error Bool :=
  if !policy.pins.isEmpty && !chain.head?.any (spkiPinMatches certs policy) then
    .error (.badResponse "pinned public key does not match server certificate")
  else match policy.callback with
    | none => .ok false
    | some accepts =>
      if accepts policy.serverName chain then .ok true
      else .error (.badResponse "server certificate rejected by verify callback")

def verifyPeerChain (chain : List Bytes) : Except Error Unit :=
  match enforcePinsThenCallback certs policy chain with
  | .error e => .error e
  | .ok true => .ok ()
  | .ok false =>
    if policy.verify && chain.head?.any (fun leaf => !certs.leafHasSan leaf) then
      .error (.badResponse
        "server certificate has no Subject Alternative Name (CN fallback is not accepted)")
    else .ok ()

/-! ## The transfer -/

def bodyIsCloseDelimited (method : String) (head : ResponseHead) : Bool :=
  !bodyless method head.status &&
    !(hasHeader head.headers "transfer-encoding" || hasHeader head.headers "content-length")

variable {E : Type} [TlsEngine E]

/-- The driver has ended: the close of the connection, then the peer, then the response. -/
def Run.ofTls (codecs : Codecs) (req : Http.Request) (fresh mayPool : Bool)
    (r : Outcome (Driver (TlsClient E ClientExchange) Collector Event) Unit) :
    Run (TlsClient E ClientExchange) :=
  match r with
  | .error e d => ⟨d, .error e, false⟩
  | .ok _ d =>
    if d.caller.head.any (bodyIsCloseDelimited (effectiveMethod req.toRequest)) &&
        !receivedCloseNotify d.machine.tls then ⟨d, .error .unexpectedEof, false⟩
    else match if fresh then verifyPeerChain certs policy (peerCertificates d.machine.tls)
        else .ok () with
      | .error e => ⟨d, .error e, false⟩
      | .ok () => match finishTransfer codecs req d.caller with
        | .error e => ⟨d, .error e, false⟩
        | .ok resp => ⟨d, .ok resp, mayPool && responseIsReusable req.method resp⟩

/-- The client for a request. -/
def clientFor (req : Http.Request) (engine : E) (bytes : Bytes) : TlsClient E ClientExchange :=
  .new engine (.newStreaming (effectiveMethod req.toRequest) bytes)

/-- An HTTP/1.1 exchange over TLS, for at most `fuel` turns of the driver. -/
def runHttpsCore (codecs : Codecs) (sock : Socket) (fuel : Nat) (req : Http.Request) (engine : E)
    (fresh mayPool : Bool) : Option (Run (TlsClient E ClientExchange)) :=
  match writeRequest req false with
  | .error e => some ⟨.start (clientFor req engine []) {}, .error e, false⟩
  | .ok bytes =>
    (driveCollect sock fuel (clientFor req engine bytes)).map
      (Run.ofTls certs policy codecs req fresh mayPool)

/-- The states at the start of the turns of the driver. -/
def driverStates (sock : Socket) (fuel : Nat) (req : Http.Request) (engine : E) :
    List (Driver (TlsClient E ClientExchange) Collector Event) :=
  match writeRequest req false with
  | .error _ => []
  | .ok bytes =>
    Driver.trail sock (fun ev c => .ok (collect ev c)) fuel (.start (clientFor req engine bytes) {})

/-! ## What goes to the engine -/

theorem writeRequest_ne_nil {req : Http.Request} {absolute : Bool} {bytes : Bytes}
    (h : writeRequest req absolute = .ok bytes) : bytes ≠ [] := by
  have hspace : (toString " ").toByteArray.data ≠ #[] := by decide
  unfold writeRequest at h
  split at h
  · cases h
  · split at h
    · cases h
    · cases h
      simp only [Http.requestHead, asBytes]
      simp [hspace]

namespace TlsClient

variable {c c' : TlsClient E ClientExchange} {request bytes : Bytes}

/-- The request is still with the exchange, or some of it with the engine. -/
def Holds (request : Bytes) (c : TlsClient E ClientExchange) : Prop :=
  c.written = [] → c.inner.out = request

theorem handleInput_out (x : ClientExchange) (wire : Bytes) :
    (Io.handleInput x wire).state.out = x.out := by
  have hstate : Io.handleInput x wire = Http1.handled x (x.handleInput wire) := rfl
  rw [hstate]
  cases hx : x.handleInput wire with
  | error e => rfl
  | ok r =>
    unfold ClientExchange.handleInput at hx
    split at hx
    · cases hx
      rfl
    · split at hx
      · cases hx
      · rename_i y hy
        cases hx
        have hout := (ClientExchange.sameRequest_advance hy).1
        simp only [Http1.handled, Outcome.state]
        split
        · exact (ClientExchange.emitStreaming_out y).trans hout
        · exact hout

theorem handleEof_out (x : ClientExchange) : (Io.handleEof x).state.out = x.out := by
  have hstate : Io.handleEof x = Http1.handled x (x.handleEof.map fun x => ((), x)) := rfl
  rw [hstate]
  unfold ClientExchange.handleEof
  split
  · exact (ClientExchange.sameRequest_finish _).1
  · rfl
  · rfl

/-- Input changes nothing about the request. -/
theorem kept_request (written out : Bytes) :
    Kept (E := E) fun c : TlsClient E ClientExchange => c.written = written ∧ c.inner.out = out where
  engine _ _ h := h
  input c chunk h := ⟨h.1, (handleInput_out c.inner chunk).trans h.2⟩
  eof c h := ⟨h.1, (handleEof_out c.inner).trans h.2⟩

theorem encryptQueued_handshaking (h : isHandshaking c.tls = true) : c.encryptQueued = c := by
  simp [encryptQueued, h]

/-- With keys, all of the request goes to the engine. -/
theorem encryptQueued_ready (h : isHandshaking c.tls = false) :
    c.encryptQueued.written = c.written ++ c.inner.out ∧ c.encryptQueued.inner.out = [] := by
  unfold encryptQueued
  rw [h, Http1.pollAll_exchange]
  by_cases hout : c.inner.out = []
  · simp [hout]
  · simp [hout]

theorem pollTransmit_written (h : Io.pollTransmit c = (bytes, c')) :
    c'.written = c.encryptQueued.written ∧ c'.inner = c.encryptQueued.inner := by
  have h' : c.pollTransmit = (bytes, c') := h
  unfold TlsClient.pollTransmit at h'
  cases h'
  exact ⟨rfl, rfl⟩

/-- A flush hands over what there is when there are keys; nothing else does. -/
def Handed (phase : Phase) (c c' : TlsClient E ClientExchange) : Prop :=
  match phase with
  | .flush => c'.written = c.encryptQueued.written ∧ c'.inner = c.encryptQueued.inner
  | .relay => c'.written = c.written ∧ c'.inner.out = c.inner.out

theorem pollEvent_out {ev : Event} (h : Io.pollEvent c = some (ev, c')) :
    c'.written = c.written ∧ c'.inner.out = c.inner.out := by
  obtain ⟨⟨ev', x⟩, hpoll, heq⟩ := Option.map_eq_some_iff.mp h
  obtain ⟨rest, -, rfl⟩ := Http1.pollEvent_exchange hpoll
  cases heq
  exact ⟨rfl, rfl⟩

variable {C : Type} {sock : Socket} {onEvent : Event → C → Except Error C}
  {d d' : Driver (TlsClient E ClientExchange) C Event}

theorem handed_step (h : Driver.Step sock onEvent d d') : Handed d.phase d.machine d'.machine := by
  cases h with
  | transmit hphase hpoll | idle hphase hpoll | write hphase hpoll =>
    rw [hphase]
    exact pollTransmit_written hpoll
  | event hphase hpoll =>
    rw [hphase]
    exact pollEvent_out hpoll
  | eof hphase hpoll hopen hfirst hread heof =>
    have hkept := (kept_request d.machine.written d.machine.inner.out).handleEof ⟨rfl, rfl⟩
    have heof' : d.machine.handleEof = .ok () _ := heof
    rw [heof'] at hkept
    rw [hphase]
    exact hkept
  | @input bytes _ _ hphase hpoll hopen hfirst hread hsome hfeed =>
    have hkept := (kept_request d.machine.written d.machine.inner.out).feed ⟨rfl, rfl⟩
      (d.pending ++ bytes)
    rw [hfeed] at hkept
    rw [hphase]
    exact hkept

theorem handed_end {r : Outcome (Driver (TlsClient E ClientExchange) C Event) Unit}
    (h : Driver.End sock onEvent d r) : Handed d.phase d.machine r.state.machine := by
  cases h with
  | write hphase hpoll =>
    rw [hphase]
    exact pollTransmit_written hpoll
  | caller hphase hpoll =>
    rw [hphase]
    exact pollEvent_out hpoll
  | finished hphase | closed hphase | read hphase =>
    rw [hphase]
    exact ⟨rfl, rfl⟩
  | eof hphase hpoll hopen hfirst hread heof =>
    have hkept := (kept_request d.machine.written d.machine.inner.out).handleEof ⟨rfl, rfl⟩
    have heof' : d.machine.handleEof = .error _ _ := heof
    rw [heof'] at hkept
    rw [hphase]
    exact hkept
  | @input bytes _ _ hphase hpoll hopen hfirst hread hsome hfeed =>
    have hkept := (kept_request d.machine.written d.machine.inner.out).feed ⟨rfl, rfl⟩
      (d.pending ++ bytes)
    rw [hfeed] at hkept
    rw [hphase]
    exact hkept

theorem Handed.holds {phase : Phase} (h : Handed phase c c') (hc : Holds request c) :
    Holds request c' := by
  intro hnil
  cases phase with
  | relay => exact h.2.trans (hc (h.1.symm.trans hnil))
  | flush =>
    cases hshake : isHandshaking c.tls with
    | true =>
      rw [Handed, encryptQueued_handshaking hshake] at h
      rw [h.2]
      exact hc (h.1.symm.trans hnil)
    | false =>
      obtain ⟨hwritten, hout⟩ := encryptQueued_ready hshake
      rw [h.1, hwritten, List.append_eq_nil_iff] at hnil
      rw [h.2, hout, ← hc hnil.1, hnil.2]

/-- Nothing is handed over while there are no keys. -/
theorem Handed.withheld {phase : Phase} (h : Handed phase c c') (hc : c.written = [])
    (hshake : phase = .flush → isHandshaking c.tls = true) : c'.written = [] := by
  cases phase with
  | relay => exact h.1.trans hc
  | flush =>
    rw [Handed, encryptQueued_handshaking (hshake rfl)] at h
    exact h.1.trans hc

theorem Handed.written_ne_nil {phase : Phase} (h : Handed phase c c') (hc : c.written ≠ []) :
    c'.written ≠ [] := by
  cases phase with
  | relay => rwa [h.1]
  | flush =>
    cases hshake : isHandshaking c.tls with
    | true =>
      rw [Handed, encryptQueued_handshaking hshake] at h
      rwa [h.1]
    | false =>
      rw [h.1, (encryptQueued_ready hshake).1]
      exact fun hnil => hc (List.append_eq_nil_iff.mp hnil).1

/-- With keys, a flush hands the request over. -/
theorem Handed.written (h : Handed .flush c c') (hc : Holds request c) (hrequest : request ≠ [])
    (hshake : isHandshaking c.tls = false) : c'.written ≠ [] := by
  rw [h.1, (encryptQueued_ready hshake).1]
  intro hnil
  obtain ⟨hwritten, hout⟩ := List.append_eq_nil_iff.mp hnil
  exact hrequest ((hc hwritten).symm.trans hout)

/-- Nothing has gone to the engine exactly where no flush found the handshake complete. -/
theorem withheld_iff {fuel : Nat} {r : Outcome (Driver (TlsClient E ClientExchange) C Event) Unit}
    (h : Driver.drive sock onEvent fuel d = some r) (hd : d.machine.written = [])
    (hd' : d.machine.inner.out = request) (hrequest : request ≠ []) :
    r.state.machine.written = [] ↔ ∀ t ∈ Driver.trail sock onEvent fuel d,
      t.phase = .flush → isHandshaking t.machine.tls = true := by
  constructor
  · intro hnil t ht hflush
    by_contra hshake
    have hholds := Loop.trail_rule (I := fun t => Holds request t.machine) (fun _ => hd')
      (fun t t' hI hnext => (handed_step (Driver.turn_next hnext)).holds hI) t ht
    have hshake := Bool.eq_false_iff.mpr hshake
    obtain ⟨fewer, hfewer⟩ := Loop.iterate_of_mem_trail h ht
    cases fewer with
    | zero => cases hfewer
    | succ fewer =>
      rw [Loop.iterate] at hfewer
      cases hturn : Driver.turn sock onEvent t with
      | done r' =>
        rw [hturn] at hfewer
        cases hfewer
        have hhanded := handed_end (Driver.turn_done hturn)
        rw [hflush] at hhanded
        exact hhanded.written hholds hrequest hshake hnil
      | next t' =>
        rw [hturn] at hfewer
        have hhanded := handed_step (Driver.turn_next hturn)
        rw [hflush] at hhanded
        obtain ⟨last, hwritten, hend⟩ := Driver.drive_rule (I := fun t => t.machine.written ≠ [])
          hfewer (hhanded.written hholds hrequest hshake) fun t t' hI hstep =>
            (handed_step hstep).written_ne_nil hI
        exact (handed_end hend).written_ne_nil hwritten hnil
  · intro hflush
    obtain ⟨last, hlast, hwritten, hdone⟩ := Driver.drive_trail (I := fun t => t.machine.written = [])
      h hd fun t ht t' hI hstep => (handed_step hstep).withheld hI (hflush t ht)
    exact (handed_end (Driver.turn_done hdone)).withheld hwritten (hflush last hlast)

end TlsClient

/-! ## The request and the decision -/

theorem ofTls_driver (codecs : Codecs) (req : Http.Request) (fresh mayPool : Bool)
    (r : Outcome (Driver (TlsClient E ClientExchange) Collector Event) Unit) :
    (Run.ofTls certs policy codecs req fresh mayPool r).driver = r.state := by
  unfold Run.ofTls
  split
  · rfl
  · split
    · rfl
    · split
      · rfl
      · split <;> rfl

/-- The policy does not accept the chain that the peer has shown in the run. -/
def Refused (run : Run (TlsClient E ClientExchange)) : Prop :=
  ∃ e, verifyPeerChain certs policy (peerCertificates run.driver.machine.tls) = .error e

variable {certs : X509} {policy : TrustPolicy}

/-- Nothing of the request has gone to the engine exactly where no flush found the handshake
complete, whatever the policy says of the peer. -/
theorem request_withheld_iff {codecs : Codecs} {sock : Socket} {fuel : Nat} {req : Http.Request}
    {engine : E} {mayPool : Bool} {run : Run (TlsClient E ClientExchange)}
    (h : runHttpsCore certs policy codecs sock fuel req engine true mayPool = some run) :
    (Refused certs policy run → run.driver.machine.written = []) ↔
      (Refused certs policy run → ∀ d ∈ driverStates sock fuel req engine,
        d.phase = .flush → isHandshaking d.machine.tls = true) := by
  unfold runHttpsCore at h
  unfold driverStates
  cases hbytes : writeRequest req false with
  | error e =>
    rw [hbytes] at h
    cases h
    simp [Driver.start, clientFor, TlsClient.new]
  | ok bytes =>
    simp only [hbytes] at h
    obtain ⟨r, hr, rfl⟩ := Option.map_eq_some_iff.mp h
    rw [ofTls_driver]
    exact imp_congr_right fun _ =>
      TlsClient.withheld_iff hr rfl rfl (writeRequest_ne_nil hbytes)

/-! ## Runs -/

/-- An engine without secrets: the first bytes are the handshake, the rest is plaintext. -/
structure ClearEngine where
  handshaking : Bool := true
  chain : List Bytes := []
  plaintext : Bytes := []
  outgoing : Bytes := []

instance : TlsEngine ClearEngine where
  isHandshaking e := e.handshaking
  feedIncoming e wire :=
    if e.handshaking then .ok () { e with handshaking := false }
    else .ok () { e with plaintext := e.plaintext ++ wire }
  drainOutgoing e := (e.outgoing, { e with outgoing := [] })
  readPlaintext e n := .ok (e.plaintext.take n) { e with plaintext := e.plaintext.drop n }
  writePlaintext e plaintext := { e with outgoing := e.outgoing ++ plaintext }
  peerCertificates e := e.chain
  receivedCloseNotify _ := true
  buffered e := e.plaintext.length
  read_lowers e n bytes e' h hsome := by
    cases h
    simp only [ne_eq, List.take_eq_nil_iff, not_or] at hsome
    simp only [List.length_drop]
    have := List.length_pos_iff.mpr hsome.2
    omega

/-- No certificate has a key or a name. -/
def X509.blank : X509 := ⟨fun _ => none, fun _ => false⟩

def secureRequest : Http.Request :=
  { method := "GET", url := ⟨"https", none, "a.example", 443, "/"⟩ }

/-- An exchange with a server that is expected to show a certain key. -/
def pinnedRun (pieces : List String) : Option (Run (TlsClient ClearEngine ClientExchange)) :=
  runHttpsCore .blank { serverName := "a.example", pins := [[0]] } .unavailable
    (.scripted (pieces.map asBytes)) 20 secureRequest {} true false

theorem request_withheld : ∃ run, pinnedRun [] = some run ∧
    Refused .blank { serverName := "a.example", pins := [[0]] } run ∧
    run.driver.machine.written = [] := by
  have hrun : (pinnedRun []).any fun run => run.driver.machine.tls.chain.isEmpty := by
    decide
  obtain ⟨run, hrun, hchain⟩ := (Option.any_eq_true _ _).mp hrun
  have hrefused : Refused .blank { serverName := "a.example", pins := [[0]] } run := by
    have hchain' : peerCertificates run.driver.machine.tls = [] := List.isEmpty_iff.mp hchain
    exact ⟨_, by rw [hchain']; rfl⟩
  have hstates : (driverStates (.scripted []) 20 secureRequest ({} : ClearEngine)).all
      fun d => isHandshaking d.machine.tls := by
    decide
  exact ⟨run, hrun, hrefused, (request_withheld_iff hrun).mpr
    (fun _ d hd _ => List.all_eq_true.mp hstates d hd) hrefused⟩

/-- A server with the wrong key gets the request. -/
theorem request_disclosed : ¬∀ (certs : X509) (policy : TrustPolicy) (codecs : Codecs)
    (sock : Socket) (fuel : Nat) (req : Http.Request) (engine : ClearEngine) (mayPool : Bool)
    (run : Run (TlsClient ClearEngine ClientExchange)),
    runHttpsCore certs policy codecs sock fuel req engine true mayPool = some run →
      Refused certs policy run → run.driver.machine.written = [] := by
  have hrun : (pinnedRun ["hello", "HTTP/1.1 204 No Content\r\n\r\n"]).any fun run =>
      run.driver.machine.tls.chain.isEmpty && !run.driver.machine.written.isEmpty := by
    decide +kernel
  obtain ⟨run, hrun, hrun'⟩ := (Option.any_eq_true _ _).mp hrun
  simp only [Bool.and_eq_true, Bool.not_eq_true', List.isEmpty_eq_false_iff,
    List.isEmpty_iff] at hrun'
  intro h
  have hchain : peerCertificates run.driver.machine.tls = [] := hrun'.1
  exact hrun'.2 (h _ _ _ _ _ _ _ _ run hrun ⟨_, by rw [hchain]; rfl⟩)

end Rsurl.Tls
