import Rsurl.Tls.Trust

/-!
# Retrying on a new connection

A request on a pooled connection is sent again when the connection seems to have gone stale: the
run failed the way a dead socket does, and no head had been relayed. Bytes of a response that did
not get as far as a head count for nothing there.
-/

namespace Rsurl.Http

open Library Io Text
open Library.Loop (Turn)
open Http1 (ClientExchange Collector Event Run driveCollect collect runPlainCore
  responseIsReusable finishTransfer)
open Http1.ClientExchange (Session)
open Http2 (Codecs effectiveMethod tlsPoolEligible)
open Tls (TlsEngine TlsClient X509 TrustPolicy runHttpsCore isHandshaking feedIncoming
  readPlaintext)

/-! ## Stale connections -/

def staleKind : IoErrorKind → Bool
  | .unexpectedEof | .connectionReset | .connectionAborted | .brokenPipe | .notConnected => true
  | _ => false

/-- The failures that mean the peer hung up on a parked connection (`stale_or_hard`). -/
def stale : Error → Bool
  | .unexpectedEof => true
  | .io kind _ => staleKind kind
  | _ => false

/-- What became of a request: on a pooled connection, and where that one was stale, or there was
none, on what dialling came to. -/
structure Attempts (M : Type) where
  pooled : Option (Run M)
  fresh : Option (Except Error (Run M))

/-- The request goes out again. -/
def retried {M : Type} (run : Run M) : Bool :=
  match run.result with
  | .ok _ => false
  | .error e => !run.driver.caller.started && stale e

/-- `pooled` is the run over the pooled connection, and `fresh` the one over a new connection. -/
def sendViaCore {M : Type} (pooled : Option (Option (Run M)))
    (fresh : Option (Except Error (Run M))) : Option (Attempts M) :=
  match pooled with
  | none => fresh.map fun run => ⟨none, some run⟩
  | some pooled => pooled.bind fun run =>
    if retried run then fresh.map fun again => ⟨some run, some again⟩ else some ⟨some run, none⟩

def onFresh {α M : Type} (dial : Except Error α) (run : α → Option (Run M)) :
    Option (Except Error (Run M)) :=
  match dial with
  | .error e => some (.error e)
  | .ok a => (run a).map .ok

def isDirect (req : Request) : Bool := !req.proxy || req.proxyBypassed

/-- `pool` is what a checkout gives. -/
def sendPlainViaCore (codecs : Codecs) (fuel : Nat) (req : Request) (pool : Option Socket)
    (dial : Except Error Socket) : Option (Attempts ClientExchange) :=
  sendViaCore
    (if isDirect req then pool.map fun sock => runPlainCore codecs sock fuel req true else none)
    (onFresh dial fun sock => runPlainCore codecs sock fuel req (isDirect req))

def sendHttpsViaCore {E : Type} [TlsEngine E] (certs : X509) (policy : TrustPolicy)
    (codecs : Codecs) (fuel : Nat) (req : Request) (pool : Option (Socket × E))
    (dial : Except Error (Socket × E)) : Option (Attempts (TlsClient E ClientExchange)) :=
  let mayPool := isDirect req && tlsPoolEligible req.toPoolRequest
  sendViaCore
    (if mayPool then pool.map fun (sock, engine) =>
      runHttpsCore certs policy codecs sock fuel req engine false true else none)
    (onFresh dial fun (sock, engine) =>
      runHttpsCore certs policy codecs sock fuel req engine true mayPool)

/-! ## Machines around an exchange -/

/-- The exchange streams its response, and what it emitted is in order. -/
def Live (seen : List Event) (x : ClientExchange) : Prop :=
  (Session.mk seen x).Tidy ∧ x.streaming = true

variable {M : Type} [Machine M Event]

/-- The machine has the events of the exchange and ends with it, and on input it does not fail as a
lost connection does. -/
structure Carries (exchange : M → ClientExchange) : Prop where
  transmit : ∀ {m m' : M} {bytes : Bytes}, pollTransmit m = (bytes, m') →
    ∃ out, exchange m' = { exchange m with out }
  event : ∀ {m m' : M} {ev : Event}, pollEvent m = some (ev, m') →
    ∃ rest, (exchange m).events = ev :: rest ∧ exchange m' = { exchange m with events := rest }
  idle : ∀ m : M, pollEvent m = none ↔ (exchange m).events = []
  finished : ∀ m : M, isFinished m = (exchange m).isFinished
  input : ∀ {seen : List Event} {m : M} (pending : Bytes),
    Live seen (exchange m) → Live seen (exchange (feed m pending).state)
  inputHard : ∀ {m m' : M} {pending : Bytes} {e : Error},
    feed m pending = .error e m' → stale e = false
  eof : ∀ {seen : List Event} {m : M},
    Live seen (exchange m) → Live seen (exchange (handleEof m).state)
  eofDone : ∀ {m m' : M}, handleEof m = .ok () m' → (exchange m').state = .done
  eofHard : ∀ {m m' : M} {e : Error},
    handleEof m = .error e m' → stale e = true → e = .unexpectedEof

/-- The connection is gone: a write fails, or a read fails or is the end. -/
inductive Lost (sock : Socket) (d : Driver M Collector Event) : M → Prop where
  | write {m : M} {kind : IoErrorKind} {msg : String} (hphase : d.phase = .flush)
      (hpoll : pollTransmit d.machine = ([], m)) (hout : d.out ≠ [])
      (hwrite : sock.write d.writes = some (kind, msg)) (hstale : staleKind kind = true) :
      Lost sock d m
  | read {kind : IoErrorKind} {msg : String} (hphase : d.phase = .relay)
      (hpoll : pollEvent d.machine = none) (hread : sock.read d.reads = .error (kind, msg))
      (hstale : staleKind kind = true) : Lost sock d d.machine
  | eof {m : M} (hphase : d.phase = .relay) (hpoll : pollEvent d.machine = none)
      (hread : sock.read d.reads = .ok []) (heof : handleEof d.machine = .error .unexpectedEof m) :
      Lost sock d m

variable {exchange : M → ClientExchange} {sock : Socket} {d d' : Driver M Collector Event}

/-- What the caller knows is what was relayed, and after the end of the connection the response is
complete. -/
structure Heeds (exchange : M → ClientExchange) (d : Driver M Collector Event) : Prop where
  live : Live d.relayed (exchange d.machine)
  caller : d.caller = d.relayed.foldl (fun c ev => collect ev c) {}
  ended : d.eofSeen = true → (exchange d.machine).state = .done

theorem Live.sent {seen : List Event} {x : ClientExchange} (h : Live seen x) (out : Bytes) :
    Live seen { x with out } :=
  ⟨⟨⟨h.1.1.fresh, h.1.1.parsed, fun hd => (h.1.1.emitting hd).congr rfl rfl rfl rfl, fun hd =>
    ⟨(h.1.1.ended hd).flushed, (h.1.1.ended hd).streamed, (h.1.1.ended hd).buffered⟩⟩, h.1.2⟩, h.2⟩

theorem Heeds.step (hc : Carries exchange) (h : Heeds exchange d)
    (hstep : Driver.Step sock (fun ev c => .ok (collect ev c)) d d') : Heeds exchange d' := by
  cases hstep with
  | transmit hphase hpoll | idle hphase hpoll | write hphase hpoll =>
    obtain ⟨out, hout⟩ := hc.transmit hpoll
    refine ⟨?_, h.caller, fun hseen => ?_⟩
    · simp only [hout]
      exact h.live.sent out
    · simp only [hout]
      exact h.ended hseen
  | event hphase hpoll hcaller =>
    obtain ⟨rest, hevents, hrest⟩ := hc.event hpoll
    cases hcaller
    refine ⟨?_, ?_, fun hseen => ?_⟩
    · simp only [hrest]
      exact ⟨⟨h.live.1.1.poll hevents, h.live.1.2⟩, h.live.2⟩
    · simp [h.caller]
    · simp only [hrest]
      exact h.ended hseen
  | eof hphase hpoll hopen hfirst hread heof =>
    have hlive := hc.eof h.live
    rw [heof] at hlive
    exact ⟨hlive, h.caller, fun _ => hc.eofDone heof⟩
  | @input bytes _ _ hphase hpoll hopen hfirst hread hsome hfeed =>
    have hlive := hc.input (d.pending ++ bytes) h.live
    rw [hfeed] at hlive
    exact ⟨hlive, h.caller, fun hseen => by simp [hfirst] at hseen⟩

/-! ## How a run fails -/

theorem Heeds.start {m : M} (h : Live [] (exchange m)) : Heeds exchange (Driver.start m {}) :=
  ⟨h, rfl, (nomatch ·)⟩

/-- The head comes first. -/
theorem Live.first {seen : List Event} {x : ClientExchange} (h : Live seen x) :
    (seen ++ x.events = [] ∧ x.state ≠ .done) ∨
      ∃ head rest, seen ++ x.events = .head head :: rest := by
  by_cases hdone : x.state = .done
  · obtain ⟨head, chunks, -, -, hseen⟩ := (h.1.1.ended hdone).streamed h.2
    exact .inr ⟨head, _, hseen⟩
  · obtain ⟨chunks, hseen, hnil⟩ := (h.1.1.emitting hdone).streamed h.2
    have hemitted : x.headEmitted = x.head.isSome := (h.1.2 h.2).2
    have hseen : seen ++ x.events = (if x.headEmitted then x.head.toList.map Event.head else []) ++
      chunks.map Event.body := hseen
    cases he : x.headEmitted with
    | false => exact .inl ⟨by simp [hseen, he, hnil he], hdone⟩
    | true =>
      obtain ⟨head, hhead⟩ := Option.isSome_iff_exists.mp (hemitted.symm.trans he)
      exact .inr ⟨head, chunks.map Event.body, by simp [hseen, he, hhead]⟩

theorem started_collect (events : List Event) {c : Collector} (h : c.started = true) :
    (events.foldl (fun c ev => collect ev c) c).started = true := by
  induction events generalizing c with
  | nil => exact h
  | cons ev events ih =>
    refine ih ?_
    cases ev <;> simp [collect, h]

/-- A head that was relayed has been seen by the caller. -/
theorem Heeds.started (h : Heeds exchange d) : d.relayed = [] ∨ d.caller.started = true := by
  cases hrelayed : d.relayed with
  | nil => exact .inl rfl
  | cons ev rest =>
    rcases h.live.first with ⟨hnil, -⟩ | ⟨head, more, hhead⟩
    · simp [hrelayed] at hnil
    · rw [hrelayed, List.cons_append] at hhead
      cases hhead
      rw [h.caller, hrelayed]
      exact .inr (started_collect rest rfl)

theorem Heeds.not_finished (hc : Carries exchange) (h : Heeds exchange d) (hrelayed : d.relayed = [])
    (hpoll : pollEvent d.machine = none) : isFinished d.machine = false ∧ d.eofSeen = false := by
  have hopen : (exchange d.machine).state ≠ .done := by
    rcases h.live.first with ⟨-, hopen⟩ | ⟨head, more, hhead⟩
    · exact hopen
    · simp [hrelayed, (hc.idle _).mp hpoll] at hhead
  refine ⟨?_, ?_⟩
  · rw [hc.finished]
    simp [ClientExchange.isFinished, hopen]
  · by_contra hseen
    exact hopen (h.ended (Bool.not_eq_false _ ▸ hseen))

/-- A connection that is lost before a head was relayed ends the run as a stale one. -/
theorem Lost.turn {m : M} (hc : Carries exchange) (h : Heeds exchange d) (hlost : Lost sock d m)
    (hrelayed : d.relayed = []) : ∃ e d', Driver.turn sock (fun ev c => .ok (collect ev c)) d =
      .done (.error e d') ∧ stale e = true ∧ d'.caller.started = false ∧
        d'.received = d.received ∧ d'.machine = m := by
  have hstarted : d.caller.started = false := by rw [h.caller, hrelayed]; rfl
  cases hlost with
  | @write _ kind msg hphase hpoll hout hwrite hstale =>
    refine ⟨.io kind msg, { d with machine := m }, ?_, hstale, hstarted, rfl, rfl⟩
    simp [Driver.turn, hphase, hpoll, Driver.send, hout, hwrite]
  | @read kind msg hphase hpoll hread hstale =>
    obtain ⟨hopen, hfirst⟩ := h.not_finished hc hrelayed hpoll
    refine ⟨.io kind msg, d, ?_, hstale, hstarted, rfl, rfl⟩
    have hkind : ¬(kind = .wouldBlock ∨ kind = .timedOut) := by
      rintro (rfl | rfl) <;> cases hstale
    simp [Driver.turn, hphase, hpoll, hopen, hfirst, Driver.receive, hread, Driver.readError, hkind]
  | eof hphase hpoll hread heof =>
    obtain ⟨hopen, hfirst⟩ := h.not_finished hc hrelayed hpoll
    refine ⟨.unexpectedEof, { d with machine := m, eofSeen := true, reads := d.reads + 1 }, ?_, rfl,
      hstarted, rfl, rfl⟩
    simp [Driver.turn, hphase, hpoll, hopen, hfirst, Driver.receive, hread, heof]

/-- A run that seems to have met a stale connection did lose its connection. -/
theorem Heeds.lost {e : Error} (hc : Carries exchange) (h : Heeds exchange d)
    (hend : Driver.End sock (fun ev c => .ok (collect ev c)) d (.error e d'))
    (hstale : stale e = true) (hstarted : d'.caller.started = false) :
    Lost sock d d'.machine ∧ d.relayed = [] ∧ d'.received = d.received := by
  have hrelayed (hcaller : d'.caller = d.caller) : d.relayed = [] := by
    rcases h.started with hnil | hstarted'
    · exact hnil
    · rw [hcaller, hstarted'] at hstarted
      cases hstarted
  cases hend with
  | write hphase hpoll hout hwrite => exact ⟨.write hphase hpoll hout hwrite hstale, hrelayed rfl, rfl⟩
  | caller hphase hpoll hcaller => cases hcaller
  | closed hphase hpoll hopen hsecond =>
    rw [hc.finished] at hopen
    simp [ClientExchange.isFinished, h.ended hsecond, (hc.idle _).mp hpoll] at hopen
  | @read kind msg hphase hpoll hopen hfirst hread =>
    have hkind : staleKind kind = true := by
      unfold Driver.readError at hstale
      split at hstale
      · cases hstale
      · exact hstale
    exact ⟨.read hphase hpoll hread hkind, hrelayed rfl, rfl⟩
  | eof hphase hpoll hopen hfirst hread heof =>
    cases hc.eofHard heof hstale
    exact ⟨.eof hphase hpoll hread heof, hrelayed rfl, rfl⟩
  | input hphase hpoll hopen hfirst hread hsome hfeed =>
    rw [hc.inputHard hfeed] at hstale
    cases hstale

/-- The states of a driven machine, from the start. -/
def driven (sock : Socket) (fuel : Nat) (m : M) : List (Driver M Collector Event) :=
  Driver.trail sock (fun ev c => .ok (collect ev c)) fuel (.start m {})

/-- The connection is lost when bytes of the response have been heard and no head has been
relayed. -/
def BreaksOff (heard : Bytes → M → Bytes) (sock : Socket) (states : List (Driver M Collector Event)) :
    Prop :=
  ∃ d ∈ states, ∃ m, Lost sock d m ∧ d.relayed = [] ∧ heard d.received m ≠ []

variable {fuel : Nat} {m : M} {r : Outcome (Driver M Collector Event) Unit}

/-- A run whose failure is taken for a stale connection after response bytes were heard, is one that
broke off. -/
theorem breaksOff_iff (hc : Carries exchange) (h : driveCollect sock fuel m = some r)
    (hm : Live [] (exchange m)) (heard : Bytes → M → Bytes) :
    (∃ e d, r = .error e d ∧ stale e = true ∧ d.caller.started = false ∧
      heard d.received d.machine ≠ []) ↔ BreaksOff heard sock (driven sock fuel m) := by
  constructor
  · rintro ⟨e, d, rfl, hstale, hstarted, hheard⟩
    obtain ⟨last, hlast, hheeds, hdone⟩ := Driver.drive_trail h (Heeds.start hm)
      fun t _ t' ht hstep => ht.step hc hstep
    obtain ⟨hlost, hrelayed, hreceived⟩ := hheeds.lost hc (Driver.turn_done hdone) hstale hstarted
    exact ⟨last, hlast, d.machine, hlost, hrelayed, hreceived ▸ hheard⟩
  · rintro ⟨d, hd, m', hlost, hrelayed, hheard⟩
    have hheeds : Heeds exchange d := Loop.trail_rule (Heeds.start hm)
      (fun t t' ht hnext => ht.step hc (Driver.turn_next hnext)) d hd
    obtain ⟨e, d', hturn, hstale, hstarted, hreceived, hmachine⟩ := hlost.turn hc hheeds hrelayed
    obtain ⟨fewer, hfewer⟩ := Loop.iterate_of_mem_trail h hd
    cases fewer with
    | zero => cases hfewer
    | succ fewer =>
      rw [Loop.iterate, hturn] at hfewer
      cases hfewer
      exact ⟨e, d', rfl, hstale, hstarted, by rwa [hreceived, hmachine]⟩

/-- A run that gets to its end has relayed a head. -/
theorem started_of_ok {d : Driver M Collector Event} (hc : Carries exchange)
    (h : driveCollect sock fuel m = some (.ok () d)) (hm : Live [] (exchange m)) :
    d.caller.started = true := by
  obtain ⟨last, hheeds, hend⟩ := Driver.drive_rule h (Heeds.start hm)
    fun t t' ht hstep => ht.step hc hstep
  cases hend with
  | finished hphase hpoll hfinished =>
    rcases hheeds.started with hnil | hstarted
    · rw [(hheeds.not_finished hc hnil hpoll).1] at hfinished
      cases hfinished
    · exact hstarted

/-! ## The exchange itself -/

theorem Live.input {seen : List Event} {x : ClientExchange} (h : Live seen x) (wire : Bytes) :
    Live seen (handleInput x wire).state := by
  have hcall : handleInput x wire = Http1.handled x (x.handleInput wire) := rfl
  rw [hcall]
  cases hx : x.handleInput wire with
  | error e => exact h
  | ok r =>
    obtain ⟨taken, y⟩ := r
    have hsession : Session.call (wire, 0) ⟨seen, x⟩ = .ok ⟨seen, y⟩ := by
      rw [Session.call, hx]
      rfl
    refine ⟨h.1.call hsession, ?_⟩
    unfold ClientExchange.handleInput at hx
    split at hx
    · cases hx
      exact h.2
    · split at hx
      · cases hx
      · rename_i z hz
        have hstreaming := (ClientExchange.sameRequest_advance hz).2.2.trans h.2
        simp only [hstreaming, if_true] at hx
        cases hx
        exact (ClientExchange.emitStreaming_streaming z).trans hstreaming

theorem Live.eof {seen : List Event} {x : ClientExchange} (h : Live seen x) :
    Live seen (handleEof x).state := by
  have hcall : handleEof x = Http1.handled x (x.handleEof.map fun x => ((), x)) := rfl
  rw [hcall]
  cases hx : x.handleEof with
  | error e => exact h
  | ok y =>
    have hsession : Session.eof ⟨seen, x⟩ = .ok ⟨seen, y⟩ := by
      rw [Session.eof, hx]
      rfl
    refine ⟨h.1.eof hsession, ?_⟩
    unfold ClientExchange.handleEof at hx
    split at hx
    · cases hx
      exact (ClientExchange.sameRequest_finish _).2.2.trans h.2
    · cases hx
      exact h.2
    · cases hx

theorem input_malformed {x x' : ClientExchange} {wire : Bytes} {e : Error}
    (h : handleInput x wire = .error e x') : stale e = false := by
  have hcall : Http1.handled x (x.handleInput wire) = .error e x' := h
  cases hx : x.handleInput wire with
  | ok r => simp [hx, Http1.handled] at hcall
  | error e' =>
    simp only [hx, Http1.handled] at hcall
    cases hcall
    unfold ClientExchange.handleInput at hx
    split at hx
    · cases hx
    · split at hx
      · rename_i hadv
        cases hx
        obtain ⟨msg, rfl⟩ := ClientExchange.malformed_advance hadv
        rfl
      · cases hx

theorem eof_cases (x : ClientExchange) : handleEof x = .error .unexpectedEof x ∨
    ∃ y, handleEof x = .ok () y ∧ y.state = .done := by
  have hcall : handleEof x = Http1.handled x (x.handleEof.map fun x => ((), x)) := rfl
  rw [hcall]
  unfold ClientExchange.handleEof
  split
  · exact .inr ⟨_, rfl, ClientExchange.finish_state _⟩
  · rename_i hdone
    exact .inr ⟨_, rfl, hdone⟩
  · exact .inl rfl

theorem carries_exchange : Carries fun x : ClientExchange => x where
  transmit hpoll := ⟨[], (Http1.pollTransmit_exchange hpoll).2⟩
  event hpoll := Http1.pollEvent_exchange hpoll
  idle x := ⟨Http1.no_event_exchange, fun h => by
    have hpoll : pollEvent x = x.pollEvent := rfl
    rw [hpoll, ClientExchange.pollEvent, h]⟩
  finished _ := rfl
  input pending h := @feed_keeps _ _ _ (Live _) (fun _ wire hm => hm.input wire) _ h pending
  inputHard h := by
    obtain ⟨x, wire, hinput⟩ := feed_error h
    exact input_malformed hinput
  eof h := h.eof
  eofDone {m m'} h := by
    rcases eof_cases m with heof | ⟨y, heof, hdone⟩
    · simp [heof] at h
    · rw [heof] at h
      cases h
      exact hdone
  eofHard {m m' e} h _ := by
    rcases eof_cases m with heof | ⟨y, heof, -⟩
    · rw [heof] at h
      cases h
      rfl
    · simp [heof] at h

/-! ## The exchange inside TLS -/

variable {E : Type} [TlsEngine E]

/-- What a TLS engine fails with is about the records, not about the connection. -/
structure FailsHard (E : Type) [TlsEngine E] : Prop where
  feed : ∀ {tls tls' : E} {wire : Bytes} {e : Error},
    feedIncoming tls wire = .error e tls' → stale e = false
  read : ∀ {tls tls' : E} {n : Nat} {e : Error},
    readPlaintext tls n = .error e tls' → stale e = false

theorem kept_live (seen : List Event) :
    TlsClient.Kept fun c : TlsClient E ClientExchange => Live seen c.inner where
  engine _ _ h := h
  input c chunk h := h.input chunk
  eof c h := h.eof

variable {c c' : TlsClient E ClientExchange} {e : Error}

theorem pump_hard (hE : FailsHard E) (h : c.pumpInnerInput = .error e c') : stale e = false := by
  refine Loop.run_rule TlsClient.pumpTurn_lowers
    (fun _ r => ∀ c', r = .error e c' → stale e = false) ?_ ?_ c c' h
  · rintro c r hr c' rfl
    unfold TlsClient.pumpTurn at hr
    split at hr
    · rename_i hread
      cases hr
      exact hE.read hread
    · cases hr
    · split at hr
      · rename_i hinput
        cases hr
        exact input_malformed hinput
      · cases hr
  · intro c c₁ r _ ih
    exact ih

theorem handleInput_hard {wire : Bytes} (hE : FailsHard E) (h : c.handleInput wire = .error e c') :
    stale e = false := by
  unfold TlsClient.handleInput at h
  split at h
  · rename_i hfeed
    cases h
    exact hE.feed hfeed
  · split at h
    · cases h
    · rcases Outcome.andThen_eq_error.mp h with hpump | ⟨u, c₁, -, hok⟩
      · exact pump_hard hE hpump
      · cases hok

theorem innerEof_cases (c : TlsClient E ClientExchange) :
    c.innerEof = .error .unexpectedEof c ∨ ∃ c', c.innerEof = .ok () c' ∧ c'.inner.state = .done := by
  unfold TlsClient.innerEof
  rcases eof_cases c.inner with heof | ⟨y, heof, hdone⟩
  · exact .inl (by rw [heof]; rfl)
  · exact .inr ⟨{ c with inner := y }, by rw [heof]; rfl, hdone⟩

theorem carries_tls (hE : FailsHard E) : Carries fun c : TlsClient E ClientExchange => c.inner where
  transmit {m m' bytes} hpoll := by
    rw [(TlsClient.pollTransmit_written hpoll).2]
    unfold TlsClient.encryptQueued
    rw [Http1.pollAll_exchange]
    simp only
    split
    · exact ⟨m.inner.out, rfl⟩
    · split <;> exact ⟨[], rfl⟩
  event {m m' ev} hpoll := by
    obtain ⟨⟨ev', x⟩, hinner, heq⟩ := Option.map_eq_some_iff.mp hpoll
    cases heq
    exact Http1.pollEvent_exchange hinner
  idle m := by
    have hpoll : pollEvent m = (pollEvent m.inner).map fun (ev, x) => (ev, { m with inner := x }) :=
      rfl
    rw [hpoll, Option.map_eq_none_iff]
    exact carries_exchange.idle m.inner
  finished _ := rfl
  input pending h := (kept_live _).feed h pending
  inputHard h := by
    obtain ⟨c, wire, hinput⟩ := feed_error h
    exact handleInput_hard hE hinput
  eof h := (kept_live _).handleEof h
  eofDone {m m'} h := by
    have hlast {c : TlsClient E ClientExchange} (h : c.innerEof = .ok () m') :
        m'.inner.state = .done := by
      rcases innerEof_cases c with heof | ⟨c', heof, hdone⟩
      · simp [heof] at h
      · rw [heof] at h
        cases h
        exact hdone
    have h' : m.handleEof = .ok () m' := h
    unfold TlsClient.handleEof at h'
    split at h'
    · exact hlast h'
    · obtain ⟨u, c, -, hok⟩ := Outcome.andThen_eq_ok.mp h'
      exact hlast hok
  eofHard {m m' e} h hstale := by
    have hlast {c : TlsClient E ClientExchange} (h : c.innerEof = .error e m') :
        e = .unexpectedEof := by
      rcases innerEof_cases c with heof | ⟨c', heof, -⟩
      · rw [heof] at h
        cases h
        rfl
      · simp [heof] at h
    have h' : m.handleEof = .error e m' := h
    unfold TlsClient.handleEof at h'
    split at h'
    · exact hlast h'
    · rcases Outcome.andThen_eq_error.mp h' with hpump | ⟨u, c, -, hok⟩
      · rw [pump_hard hE hpump] at hstale
        cases hstale
      · exact hlast hok

/-! ## When a request is sent again -/

/-- Something was heard over the pooled connection, and yet the request went out again. -/
def Replays (heard : Bytes → M → Bytes) (a : Attempts M) : Prop :=
  ∃ run again, a.pooled = some run ∧ a.fresh = some (.ok again) ∧
    heard run.driver.received run.driver.machine ≠ []

theorem replays_iff {α : Type} {heard : Bytes → M → Bytes} {run : Run M} {dial : Except Error α}
    {fresh : α → Option (Run M)} {a : Attempts M}
    (h : sendViaCore (some (some run)) (onFresh dial fresh) = some a) :
    Replays heard a ↔ (∃ conn, dial = .ok conn) ∧ retried run = true ∧
      heard run.driver.received run.driver.machine ≠ [] := by
  simp only [sendViaCore, Option.bind_some] at h
  split at h
  · rename_i hretried
    obtain ⟨again, hagain, rfl⟩ := Option.map_eq_some_iff.mp h
    unfold onFresh at hagain
    constructor
    · rintro ⟨run', again', hrun, hok, hheard⟩
      cases hrun
      cases hok
      split at hagain
      · cases hagain
      · exact ⟨⟨_, rfl⟩, hretried, hheard⟩
    · rintro ⟨⟨conn, rfl⟩, -, hheard⟩
      obtain ⟨again', -, rfl⟩ := Option.map_eq_some_iff.mp hagain
      exact ⟨run, again', rfl, rfl, hheard⟩
  · rename_i hretried
    cases h
    constructor
    · rintro ⟨run', again', -, hok, -⟩
      cases hok
    · rintro ⟨-, hretried', -⟩
      exact absurd hretried' hretried

/-- The states of a plaintext exchange. -/
def plainStates (sock : Socket) (fuel : Nat) (req : Request) :
    List (Driver ClientExchange Collector Event) :=
  match writeRequest req (viaPlainHttpProxy req) with
  | .error _ => []
  | .ok bytes => driven sock fuel (.newStreaming (effectiveMethod req.toRequest) bytes)

theorem live_start (method : String) (request : Bytes) :
    Live [] (ClientExchange.newStreaming method request) :=
  ⟨Session.tidy_start method request true, rfl⟩

/-- What is read from a plaintext connection. -/
def heardPlain (received : Bytes) (_ : ClientExchange) : Bytes := received

/-- What a TLS connection was found to say. -/
def heardTls (_ : Bytes) (c : TlsClient E ClientExchange) : Bytes := c.delivered

theorem retried_plain_iff {codecs : Codecs} {fuel : Nat} {req : Request} {mayPool : Bool}
    {run : Run ClientExchange} (h : runPlainCore codecs sock fuel req mayPool = some run) :
    (retried run = true ∧ heardPlain run.driver.received run.driver.machine ≠ []) ↔
      BreaksOff heardPlain sock (plainStates sock fuel req) := by
  unfold runPlainCore at h
  unfold plainStates
  cases hbytes : writeRequest req (viaPlainHttpProxy req) with
  | error e =>
    rw [hbytes] at h
    cases h
    simp [BreaksOff, heardPlain, Driver.start]
  | ok bytes =>
    simp only [hbytes] at h
    obtain ⟨r, hr, rfl⟩ := Option.map_eq_some_iff.mp h
    rw [← breaksOff_iff carries_exchange hr (live_start _ bytes)]
    cases r with
    | error e d => simp [Run.of, retried, and_assoc, and_comm, and_left_comm]
    | ok u d =>
      have hstarted := started_of_ok carries_exchange hr (live_start _ bytes)
      unfold Run.of
      simp only
      split <;> simp [retried, hstarted]

theorem retried_tls_iff {certs : X509} {policy : TrustPolicy} {codecs : Codecs} {fuel : Nat}
    {req : Request} {engine : E} {fresh mayPool : Bool} {run : Run (TlsClient E ClientExchange)}
    (hE : FailsHard E)
    (h : runHttpsCore certs policy codecs sock fuel req engine fresh mayPool = some run) :
    (retried run = true ∧ heardTls run.driver.received run.driver.machine ≠ []) ↔
      BreaksOff heardTls sock (Tls.driverStates sock fuel req engine) := by
  unfold runHttpsCore at h
  unfold Tls.driverStates
  cases hbytes : writeRequest req false with
  | error e =>
    rw [hbytes] at h
    cases h
    simp [BreaksOff, heardTls, Driver.start, Tls.clientFor, TlsClient.new]
  | ok bytes =>
    simp only [hbytes] at h
    obtain ⟨r, hr, rfl⟩ := Option.map_eq_some_iff.mp h
    have hiff := breaksOff_iff (carries_tls hE) hr (live_start _ bytes) heardTls
    refine Iff.trans ?_ hiff
    cases r with
    | error e d => simp [Tls.Run.ofTls, retried, and_assoc, and_comm, and_left_comm]
    | ok u d =>
      have hstarted := started_of_ok (carries_tls hE) hr (live_start _ bytes)
      unfold Tls.Run.ofTls
      simp only
      split
      · simp [retried, hstarted]
      · split
        · simp [retried, hstarted]
        · split <;> simp [retried, hstarted]

/-- A request that was answered with some bytes over a pooled connection goes out again exactly
where that connection breaks off before a head was relayed, and another can be had. -/
theorem replays_after_bytes_iff (codecs : Codecs) (fuel : Nat) (req : Request) (sock : Socket) :
    (∀ (dial : Except Error Socket) (a : Attempts ClientExchange),
      sendPlainViaCore codecs fuel req (some sock) dial = some a →
        (¬Replays heardPlain a ↔ ¬(isDirect req = true ∧ (∃ conn, dial = .ok conn) ∧
          BreaksOff heardPlain sock (plainStates sock fuel req)))) ∧
    ∀ (E : Type) [TlsEngine E], FailsHard E → ∀ (certs : X509) (policy : TrustPolicy)
      (engine : E) (dial : Except Error (Socket × E)) (a : Attempts (TlsClient E ClientExchange)),
      sendHttpsViaCore certs policy codecs fuel req (some (sock, engine)) dial = some a →
        (¬Replays heardTls a ↔
          ¬((isDirect req && tlsPoolEligible req.toPoolRequest) = true ∧
            (∃ conn, dial = .ok conn) ∧
              BreaksOff heardTls sock (Tls.driverStates sock fuel req engine))) := by
  have hnone {M : Type} {heard : Bytes → M → Bytes} {fresh : Option (Except Error (Run M))}
      {a : Attempts M} (h : sendViaCore none fresh = some a) : ¬Replays heard a := by
    obtain ⟨again, -, rfl⟩ := Option.map_eq_some_iff.mp h
    rintro ⟨run, again', hrun, -⟩
    cases hrun
  constructor
  · intro dial a h
    unfold sendPlainViaCore at h
    by_cases hdirect : isDirect req = true
    · simp only [hdirect, if_true, Option.map_some] at h
      cases hrun : runPlainCore codecs sock fuel req true with
      | none => simp [hrun, sendViaCore] at h
      | some run =>
        rw [hrun] at h
        rw [replays_iff h, retried_plain_iff hrun]
        simp [hdirect]
    · simp only [hdirect, if_false, Bool.false_eq_true] at h ⊢
      simp [hnone h]
  · intro E _ hE certs policy engine dial a h
    unfold sendHttpsViaCore at h
    by_cases hpool : (isDirect req && tlsPoolEligible req.toPoolRequest) = true
    · simp only [hpool, if_true, Option.map_some] at h
      cases hrun : runHttpsCore certs policy codecs sock fuel req engine false true with
      | none => simp [hrun, sendViaCore] at h
      | some run =>
        rw [hrun] at h
        rw [replays_iff h, retried_tls_iff hE hrun]
        simp [hpool]
    · simp only [hpool, if_false, Bool.false_eq_true] at h ⊢
      simp [hnone h]

/-! ## Two pooled connections -/

theorem Lost.machine {m : M} (h : Lost sock d m) :
    m = d.machine ∨ m = (pollTransmit d.machine).2 ∨ m = (handleEof d.machine).state := by
  cases h with
  | write hphase hpoll => exact .inr (.inl (by rw [hpoll]))
  | read => exact .inl rfl
  | eof hphase hpoll hread heof => exact .inr (.inr (by rw [heof]; rfl))

def payment : Request :=
  { method := "POST", url := ⟨"https", none, "a.example", 443, "/pay"⟩, body := asBytes "100" }

def accepted : Socket := .scripted [asBytes "HTTP/1.1 204 No Content\r\n\r\n"]

theorem failsHard_clearEngine : FailsHard Tls.ClearEngine where
  feed {tls tls' wire e} h := by
    have h' : (if tls.handshaking then Outcome.ok () { tls with handshaking := false }
      else .ok () { tls with plaintext := tls.plaintext ++ wire }) =
        (.error e tls' : Outcome Tls.ClearEngine Unit) := h
    split at h' <;> cases h'
  read h := nomatch h

theorem replays_no_answer :
    (∃ a, sendPlainViaCore .unavailable 20 payment (some (.scripted [])) (.ok accepted) = some a ∧
      a.fresh.isSome ∧ ¬Replays heardPlain a) ∧
    ∃ a, sendHttpsViaCore .blank { serverName := "a.example" } .unavailable 20 payment
        (some (.scripted [], ({ handshaking := false } : Tls.ClearEngine))) (.ok (accepted, {})) =
          some a ∧ a.fresh.isSome ∧ ¬Replays heardTls a := by
  have hplain : (sendPlainViaCore .unavailable 20 payment (some (.scripted [])) (.ok accepted)).any
      fun a => a.fresh.isSome := by
    decide +kernel
  have htls : (sendHttpsViaCore .blank { serverName := "a.example" } .unavailable 20 payment
      (some (.scripted [], ({ handshaking := false } : Tls.ClearEngine)))
      (.ok (accepted, {}))).any fun a => a.fresh.isSome := by
    decide +kernel
  have hsilent : (plainStates (.scripted []) 20 payment).all fun d => d.received.isEmpty := by
    decide +kernel
  have hsilent' : (Tls.driverStates (.scripted []) 20 payment
      ({ handshaking := false } : Tls.ClearEngine)).all fun d => d.machine.delivered.isEmpty &&
        (pollTransmit d.machine).2.delivered.isEmpty &&
          (handleEof d.machine).state.delivered.isEmpty := by
    decide +kernel
  obtain ⟨a, ha, hfresh⟩ := (Option.any_eq_true _ _).mp hplain
  obtain ⟨b, hb, hfresh'⟩ := (Option.any_eq_true _ _).mp htls
  refine ⟨⟨a, ha, hfresh, ((replays_after_bytes_iff _ _ _ _).1 _ a ha).mpr ?_⟩, b, hb, hfresh',
    ((replays_after_bytes_iff _ _ _ _).2 Tls.ClearEngine failsHard_clearEngine _ _ _ _ b hb).mpr
      ?_⟩
  · rintro ⟨-, -, d, hd, m, -, -, hheard⟩
    exact hheard (List.isEmpty_iff.mp (List.all_eq_true.mp hsilent d hd))
  · rintro ⟨-, -, d, hd, m, hlost, -, hheard⟩
    have hall := List.all_eq_true.mp hsilent' d hd
    simp only [Bool.and_eq_true, List.isEmpty_iff] at hall
    rcases hlost.machine with rfl | rfl | rfl
    · exact hheard hall.1.1
    · exact hheard hall.1.2
    · exact hheard hall.2

/-- A payment is sent again after the pooled connection broke off within an answer. -/
theorem replays_payment :
    ¬∀ (codecs : Codecs) (fuel : Nat) (req : Request) (sock : Socket) (dial : Except Error Socket)
      (a : Attempts ClientExchange),
      sendPlainViaCore codecs fuel req (some sock) dial = some a → ¬Replays heardPlain a := by
  have hrun : (sendPlainViaCore .unavailable 20 { payment with url.scheme := "http" }
      (some (.scripted [asBytes "HTTP/1.1 1"])) (.ok accepted)).any fun a =>
        a.pooled.any (fun run => !run.driver.received.isEmpty) &&
          a.fresh.any fun again => again.toOption.isSome := by
    decide +kernel
  obtain ⟨a, ha, hreplays⟩ := (Option.any_eq_true _ _).mp hrun
  simp only [Bool.and_eq_true] at hreplays
  obtain ⟨run, hpooled, hheard⟩ := (Option.any_eq_true _ _).mp hreplays.1
  obtain ⟨again, hfresh, hok⟩ := (Option.any_eq_true _ _).mp hreplays.2
  intro h
  refine h _ _ _ _ _ a ha ?_
  cases again with
  | error e => cases hok
  | ok again =>
    refine ⟨run, again, hpooled, hfresh, fun hnil => ?_⟩
    have hnil' : run.driver.received = [] := hnil
    simp [hnil'] at hheard

end Rsurl.Http
