import Rsurl.Http2.Reachable
import Mathlib.Data.List.AList

/-!
# The connection pool

Idle connections are kept under the origin and partition of the request that used them last.
`send` takes one for its own key or dials; `sendMultiplexed` runs a whole batch on one connection,
under the key of its first request. The world remembers which keys each connection carried, so that
it can be asked whether two partitions ever met.
-/

namespace Rsurl.Http2

open Library Text

/-! ## Requests -/

/-- A request with what decides over pooling and dialling. -/
structure PoolRequest extends Request where
  partitionKey : Option String := none
  h2RecvWindow : Nat := defaultRecvWindow
  verifyTls : Bool := true
  caBundle : Option String := none
  caPath : Option String := none
  clientCert : Option String := none
  clientKey : Option String := none
  pinnedPubkey : Option String := none
  crlFile : Option String := none
  ciphers : Option String := none
  tls13Ciphers : Option String := none
  tlsMin : Option Nat := none
  tlsMax : Option Nat := none
  /-- A verify callback is installed. -/
  tlsVerifyCallback : Bool := false
  /-- An HTTP proxy is set. -/
  proxy : Bool := false
  /-- The host is on the proxy's exception list. -/
  proxyBypassed : Bool := false
  /-- The connector dials the origin itself. -/
  connectorIsDirect : Bool := true
  /-- A proxy resolver is installed. -/
  proxyResolver : Bool := false
  connectTo : List (String × Nat × String × Nat) := []
  resolve : List (String × Nat × String) := []
  deriving DecidableEq, Repr

structure PoolKey where
  scheme : String
  host : String
  port : Nat
  «partition» : Option String
  deriving DecidableEq, Repr

def PoolKey.fromRequest (req : PoolRequest) : PoolKey where
  scheme := req.url.scheme
  host := req.url.host
  port := req.url.port
  «partition» := req.partitionKey

/-- The TLS posture every pool asks for. -/
def tlsPoolEligible (req : PoolRequest) : Bool :=
  req.verifyTls && req.caBundle.isNone && req.caPath.isNone && req.clientCert.isNone &&
    req.clientKey.isNone && req.pinnedPubkey.isNone && req.crlFile.isNone && req.ciphers.isNone &&
    req.tls13Ciphers.isNone && !req.tlsVerifyCallback && req.tlsMin.isNone && req.tlsMax.isNone &&
    (!req.proxy || req.proxyBypassed) && req.connectorIsDirect

def poolEligible (req : PoolRequest) : Bool :=
  tlsPoolEligible req && !req.proxyResolver && req.connectTo.isEmpty && req.resolve.isEmpty

/-! ## The pool -/

/-- A connection, and the number it was dialled under. -/
structure PooledConn where
  id : Nat
  conn : Connection

abbrev PoolInner := AList fun _ : PoolKey => List PooledConn

namespace PoolInner

/-- Take the connection that was released last. -/
def checkout (pool : PoolInner) (key : PoolKey) : Option PooledConn × PoolInner :=
  match pool.lookup key with
  | none => (none, pool)
  | some bucket =>
    let rest := bucket.dropLast
    (bucket.getLast?, if rest.isEmpty then pool.erase key else pool.insert key rest)

def totalLen (pool : PoolInner) : Nat := (pool.entries.map fun e => e.2.length).sum

/-- Keep a connection, unless the pool or the bucket of its key is full. -/
def release (pool : PoolInner) (perKeyCap globalCap : Nat) (key : PoolKey) (conn : PooledConn) :
    PoolInner :=
  if globalCap ≤ pool.totalLen then pool
  else
    let bucket := (pool.lookup key).getD []
    -- `entry(key).or_default()` leaves an empty bucket behind when the cap is 0
    if perKeyCap ≤ bucket.length then pool.insert key bucket
    else pool.insert key (bucket ++ [conn])

end PoolInner

/-! ## Sending -/

/-- The process: its pool, what the coming dials end with, and which keys each connection
carried. -/
structure World where
  pool : PoolInner
  perKeyCap : Nat
  globalCap : Nat
  /-- How the coming TLS dials end. -/
  dials : List (Except Error Transport)
  nextConn : Nat
  carried : List (Nat × PoolKey)

namespace World

/-- A request goes to a connection. -/
def carry (w : World) (id : Nat) (req : PoolRequest) : World :=
  { w with carried := w.carried ++ [(id, PoolKey.fromRequest req)] }

def release (w : World) (key : PoolKey) (conn : PooledConn) : World :=
  { w with pool := w.pool.release w.perKeyCap w.globalCap key conn }

def checkout (w : World) (key : PoolKey) : Option PooledConn × World :=
  let (conn, pool) := w.pool.checkout key
  (conn, { w with pool })

/-- TCP, proxy tunnel, TLS and ALPN end as the world says; then the connection starts. -/
def dialH2 (w : World) (req : PoolRequest) : Except Error PooledConn × World :=
  match w.dials with
  | [] => (.error (.io .other "no route"), w)
  | dial :: dials =>
    let w := { w with dials }
    match dial with
    | .error e => (.error e, w)
    | .ok tls => match Connection.new tls req.h2RecvWindow with
      | .error e => (.error e, w)
      | .ok conn => (.ok ⟨w.nextConn, conn⟩, { w with nextConn := w.nextConn + 1 })

end World

/-- A request that failed on a pooled connection may be sent again: the server did not act on
it. -/
def pooledFailureRetryable (conn : Connection) (firstId : Nat) (req : Request) (err : Error) :
    Bool :=
  if conn.nextStreamId = firstId then true
  else if conn.goawayReceived.any (· < firstId) then true
  else
    let stream := conn.streams[firstId]?
    if stream.any (·.refused) then true
    else
      let transportFailure := match err with
        | .io _ _ | .unexpectedEof => true
        | _ => false
      let nothingReceived := !stream.any (·.rxAny)
      let method := effectiveMethod req
      let idempotent := ["GET", "HEAD", "OPTIONS", "TRACE", "PUT", "DELETE"].any
        (eqIgnoreAsciiCase method ·)
      transportFailure && nothingReceived && idempotent

namespace World

/-- A cold dial, the request on it, and the connection into the pool. -/
def sendCold (codecs : Codecs) (req : PoolRequest) (w : World) :
    Except Error Response × World :=
  match w.dialH2 req with
  | (.error e, w) => (.error e, w)
  | (.ok fresh, w) =>
    let w := w.carry fresh.id req
    match fresh.conn.runOneRequest codecs req.toRequest with
    | .error e _ => (.error e, w)
    | .ok resp conn =>
      (.ok resp, if poolEligible req && conn.isUsable then
        w.release (PoolKey.fromRequest req) { fresh with conn } else w)

def send (codecs : Codecs) (req : PoolRequest) (w : World) : Except Error Response × World :=
  if req.url.scheme ≠ "https" then
    (.error (.unsupportedScheme s!"http/2 over {req.url.scheme} not supported"), w)
  else if !poolEligible req then w.sendCold codecs req
  else match w.checkout (PoolKey.fromRequest req) with
    | (none, w) => w.sendCold codecs req
    | (some pooled, w) =>
      if !pooled.conn.isUsable then w.sendCold codecs req
      else
        let w := w.carry pooled.id req
        match pooled.conn.runOneRequest codecs req.toRequest with
        | .ok resp conn =>
          (.ok resp, if conn.isUsable then
            w.release (PoolKey.fromRequest req) { pooled with conn } else w)
        | .error e conn =>
          if pooledFailureRetryable conn pooled.conn.nextStreamId req.toRequest e then
            w.sendCold codecs req
          else (.error e, w)

/-- One request after the other. -/
def sendAll (codecs : Codecs) : List PoolRequest → World → List (Except Error Response) × World
  | [], w => ([], w)
  | req :: rest, w =>
    let (r, w) := w.send codecs req
    let (rs, w) := sendAll codecs rest w
    (r :: rs, w)

/-- Run a batch on one connection and keep the connection if all of it went well. -/
def runBatch (codecs : Codecs) (key : PoolKey) (reqs : List PoolRequest) (pc : PooledConn)
    (w : World) : List (Except Error Response) × World :=
  let w := reqs.foldl (fun w req => w.carry pc.id req) w
  let (results, conn) := pc.conn.runMultiplexed codecs (reqs.map PoolRequest.toRequest)
  let ok : Except Error Response → Bool := fun
    | .ok _ => true
    | .error _ => false
  (results, if results.all ok && conn.isUsable then w.release key { pc with conn } else w)

/-- The batch shares one `https` origin, and each request may use the pool. -/
def multiplexable (first : PoolRequest) (reqs : List PoolRequest) : Bool :=
  first.url.scheme == "https" && reqs.all (fun r =>
    r.url.scheme == first.url.scheme && r.url.host == first.url.host &&
      r.url.port == first.url.port) && reqs.all poolEligible

def sendMultiplexed (codecs : Codecs) (reqs : List PoolRequest) (w : World) :
    List (Except Error Response) × World :=
  match reqs with
  | [] => ([], w)
  | first :: _ =>
    if !multiplexable first reqs then w.sendAll codecs reqs
    else
      let key := PoolKey.fromRequest first
      let dial (w : World) := match w.dialH2 first with
        | (.error _, w) => w.sendAll codecs reqs
        | (.ok fresh, w) => w.runBatch codecs key reqs fresh
      match w.checkout key with
      | (none, w) => dial w
      | (some pooled, w) =>
        if pooled.conn.isUsable then w.runBatch codecs key reqs pooled else dial w

/-! ## Whole runs -/

/-- A call into the library. -/
inductive Call where
  | send (req : PoolRequest)
  | sendMultiplexed (reqs : List PoolRequest)
  | configure (perKey total : Nat)

def call (codecs : Codecs) (w : World) : Call → World
  | .send req => (w.send codecs req).2
  | .sendMultiplexed reqs => (w.sendMultiplexed codecs reqs).2
  | .configure perKey total => { w with perKeyCap := max perKey 1, globalCap := max total 1 }

def run (codecs : Codecs) (calls : List Call) (w : World) : World := calls.foldl (call codecs) w

/-- Nothing has been sent. -/
def start (dials : List (Except Error Transport)) : World := ⟨∅, 4, 32, dials, 0, []⟩

/-! ## Isolation -/

variable {w w' : World} {codecs : Codecs} {key : PoolKey} {req : PoolRequest} {pc : PooledConn}

/-- No connection carried two keys, and idle connections are kept under the key they carried. -/
structure Isolated (w : World) : Prop where
  one : ∀ id k k', (id, k) ∈ w.carried → (id, k') ∈ w.carried → k = k'
  pooled : ∀ k bucket, w.pool.lookup k = some bucket → ∀ pc ∈ bucket, (pc.id, k) ∈ w.carried
  known : ∀ e ∈ w.carried, e.1 < w.nextConn

theorem isolated_start (dials : List (Except Error Transport)) : Isolated (start dials) :=
  ⟨by simp [start], by simp [start], by simp [start]⟩

/-- A request goes to a connection that carried no other key. -/
theorem Isolated.carry (h : Isolated w) {id : Nat} (hid : id < w.nextConn)
    (hkey : ∀ k, (id, k) ∈ w.carried → k = PoolKey.fromRequest req) : Isolated (w.carry id req) := by
  have hmem {e : Nat × PoolKey} : e ∈ (w.carry id req).carried ↔
      e ∈ w.carried ∨ e = (id, PoolKey.fromRequest req) := by
    simp [World.carry]
  refine ⟨fun i k k' hk hk' => ?_, fun k bucket hb pc hpc => ?_, fun e he => ?_⟩
  · rcases hmem.mp hk with hk | hk <;> rcases hmem.mp hk' with hk' | hk'
    · exact h.one i k k' hk hk'
    · cases hk'
      exact hkey k hk
    · cases hk
      exact (hkey k' hk').symm
    · cases hk
      cases hk'
      rfl
  · exact hmem.mpr (.inl (h.pooled k bucket hb pc hpc))
  · rcases hmem.mp he with he | rfl
    · exact h.known e he
    · exact hid

theorem Isolated.release (h : Isolated w) (hpc : (pc.id, key) ∈ w.carried) :
    Isolated (w.release key pc) := by
  refine ⟨h.one, fun k bucket hb pc' hpc' => ?_, h.known⟩
  have hold (hmem : pc' ∈ (w.pool.lookup key).getD []) (hk : k = key) :
      (pc'.id, k) ∈ w.carried := by
    subst hk
    cases hl : w.pool.lookup k with
    | none =>
      rw [hl] at hmem
      cases hmem
    | some old =>
      rw [hl] at hmem
      exact h.pooled k old hl pc' hmem
  unfold World.release PoolInner.release at hb
  simp only at hb
  split at hb
  · exact h.pooled k bucket hb pc' hpc'
  · by_cases hk : k = key
    · split at hb
      · rw [hk, AList.lookup_insert] at hb
        cases hb
        exact hold hpc' hk
      · rw [hk, AList.lookup_insert] at hb
        cases hb
        rcases List.mem_append.mp hpc' with hmem | hmem
        · exact hold hmem hk
        · cases List.mem_singleton.mp hmem
          rw [hk]
          exact hpc
    · split at hb
      all_goals
        rw [AList.lookup_insert_ne hk] at hb
        exact h.pooled k bucket hb pc' hpc'

/-- A connection that is taken from the pool carried the key it is taken for. -/
theorem Isolated.checkout (h : Isolated w) {found : Option PooledConn}
    (hc : w.checkout key = (found, w')) :
    Isolated w' ∧ w'.carried = w.carried ∧ w'.nextConn = w.nextConn ∧
      ∀ pc, found = some pc → (pc.id, key) ∈ w.carried := by
  unfold World.checkout PoolInner.checkout at hc
  cases hl : w.pool.lookup key with
  | none =>
    rw [hl] at hc
    cases hc
    exact ⟨h, rfl, rfl, by simp⟩
  | some bucket =>
    rw [hl] at hc
    simp only at hc
    obtain ⟨rfl, rfl⟩ := Prod.mk.inj hc
    refine ⟨⟨h.one, fun k b hb pc' hpc' => ?_, h.known⟩, rfl, rfl, fun pc hpc => ?_⟩
    · simp only at hb
      by_cases hk : k = key
      · split at hb
        · rw [hk, AList.lookup_erase] at hb
          cases hb
        · rw [hk, AList.lookup_insert] at hb
          cases hb
          rw [hk]
          exact h.pooled key bucket hl pc' (List.dropLast_subset bucket hpc')
      · split at hb
        · rw [AList.lookup_erase_ne hk] at hb
          exact h.pooled k b hb pc' hpc'
        · rw [AList.lookup_insert_ne hk] at hb
          exact h.pooled k b hb pc' hpc'
    · exact h.pooled key bucket hl pc (List.mem_of_getLast? hpc)

/-- A connection that is dialled carried nothing. -/
theorem Isolated.dialH2 (h : Isolated w) {r : Except Error PooledConn}
    (hd : w.dialH2 req = (r, w')) :
    Isolated w' ∧ ∀ pc, r = .ok pc → pc.id < w'.nextConn ∧ ∀ k, (pc.id, k) ∉ w'.carried := by
  unfold World.dialH2 at hd
  split at hd
  · cases hd
    exact ⟨h, by simp⟩
  · simp only at hd
    split at hd
    · cases hd
      exact ⟨⟨h.one, h.pooled, h.known⟩, by simp⟩
    · split at hd
      · cases hd
        exact ⟨⟨h.one, h.pooled, h.known⟩, by simp⟩
      · cases hd
        refine ⟨⟨h.one, h.pooled, fun e he => Nat.lt_succ_of_lt (h.known e he)⟩, ?_⟩
        intro pc hpc
        cases hpc
        exact ⟨Nat.lt_succ_self _, fun k hk => absurd (h.known _ hk) (lt_irrefl _)⟩

theorem carried_carry (w : World) (id : Nat) (req : PoolRequest) :
    (id, PoolKey.fromRequest req) ∈ (w.carry id req).carried := by
  simp [World.carry]

theorem isolated_sendCold (h : Isolated w) : Isolated (w.sendCold codecs req).2 := by
  unfold sendCold
  cases hd : w.dialH2 req with
  | mk r w₁ =>
    obtain ⟨h₁, hfresh⟩ := h.dialH2 hd
    cases r with
    | error e => exact h₁
    | ok fresh =>
      obtain ⟨hid, hnone⟩ := hfresh fresh rfl
      have h₂ := @Isolated.carry _ req h₁ _ hid fun k hk => absurd hk (hnone k)
      simp only
      split
      · exact h₂
      · simp only
        split
        · exact h₂.release (carried_carry w₁ fresh.id req)
        · exact h₂

theorem isolated_send (h : Isolated w) : Isolated (w.send codecs req).2 := by
  unfold send
  split
  · exact h
  · split
    · exact isolated_sendCold h
    · cases hc : w.checkout (PoolKey.fromRequest req) with
      | mk found w₁ =>
        obtain ⟨h₁, hcarried, hnext, hfound⟩ := h.checkout hc
        cases found with
        | none => exact isolated_sendCold h₁
        | some pooled =>
          have hmem := hfound pooled rfl
          have h₂ : Isolated (w₁.carry pooled.id req) := by
            refine h₁.carry (by rw [hnext]; exact h.known _ hmem) fun k hk => ?_
            rw [hcarried] at hk
            exact h.one _ _ _ hk hmem
          simp only
          split
          · exact isolated_sendCold h₁
          · split
            · simp only
              split
              · exact h₂.release (carried_carry w₁ pooled.id req)
              · exact h₂
            · split
              · exact isolated_sendCold h₂
              · exact h₂

theorem isolated_sendAll (reqs : List PoolRequest) (h : Isolated w) :
    Isolated (w.sendAll codecs reqs).2 := by
  induction reqs generalizing w with
  | nil => exact h
  | cons req rest ih => exact ih (isolated_send h)

theorem foldl_carry (reqs : List PoolRequest) (h : Isolated w) {id : Nat} (hid : id < w.nextConn)
    (hkey : ∀ k, (id, k) ∈ w.carried → k = key)
    (hall : ∀ req ∈ reqs, PoolKey.fromRequest req = key) :
    Isolated (reqs.foldl (fun w req => w.carry id req) w) ∧
      (reqs ≠ [] → (id, key) ∈ (reqs.foldl (fun w req => w.carry id req) w).carried) ∧
      ∀ e ∈ w.carried, e ∈ (reqs.foldl (fun w req => w.carry id req) w).carried := by
  induction reqs generalizing w with
  | nil => exact ⟨h, by simp, fun _ he => he⟩
  | cons req rest ih =>
    have hreq := hall req List.mem_cons_self
    have hcarry : Isolated (w.carry id req) :=
      h.carry hid fun k hk => (hkey k hk).trans hreq.symm
    obtain ⟨hrest, -, hmono⟩ := @ih (w.carry id req) hcarry hid (fun k hk => by
      rcases List.mem_append.mp hk with hk | hk
      · exact hkey k hk
      · cases List.mem_singleton.mp hk
        exact hreq) fun r hr => hall r (List.mem_cons_of_mem req hr)
    refine ⟨hrest, fun _ => hmono _ ?_, fun e he => hmono e (List.mem_append_left _ he)⟩
    rw [← hreq]
    exact carried_carry w id req

theorem isolated_runBatch {reqs : List PoolRequest} (h : Isolated w) (hne : reqs ≠ [])
    (hid : pc.id < w.nextConn) (hkey : ∀ k, (pc.id, k) ∈ w.carried → k = key)
    (hall : ∀ req ∈ reqs, PoolKey.fromRequest req = key) :
    Isolated (w.runBatch codecs key reqs pc).2 := by
  obtain ⟨hcarry, hmem, -⟩ := foldl_carry reqs h hid hkey hall
  unfold runBatch
  simp only
  split
  · exact hcarry.release (hmem hne)
  · exact hcarry

/-- A batch that is multiplexed although its requests belong to different partitions. -/
def mixes (reqs : List PoolRequest) : Bool :=
  match reqs with
  | [] => false
  | first :: _ =>
    multiplexable first reqs && !reqs.all (·.partitionKey == first.partitionKey)

theorem fromRequest_of_batch {first : PoolRequest} {reqs : List PoolRequest}
    (hm : multiplexable first reqs = true)
    (hp : reqs.all (·.partitionKey == first.partitionKey) = true) :
    ∀ req ∈ reqs, PoolKey.fromRequest req = PoolKey.fromRequest first := by
  intro req hreq
  simp only [multiplexable, Bool.and_eq_true, List.all_eq_true, beq_iff_eq] at hm hp
  obtain ⟨⟨hscheme, hhost⟩, hport⟩ := hm.1.2 req hreq
  simp [PoolKey.fromRequest, hscheme, hhost, hport, hp req hreq]

theorem isolated_sendMultiplexed {reqs : List PoolRequest} (h : Isolated w)
    (hmix : mixes reqs = false) : Isolated (w.sendMultiplexed codecs reqs).2 := by
  unfold sendMultiplexed
  cases reqs with
  | nil => exact h
  | cons first rest =>
    simp only
    split
    · exact isolated_sendAll _ h
    · rename_i hm
      have hm' : multiplexable first (first :: rest) = true := by simpa using hm
      have hall := fromRequest_of_batch hm' (by simpa [mixes, hm'] using hmix)
      have hdial {w : World} (h : Isolated w) : Isolated
          (match w.dialH2 first with
            | (.error _, w) => w.sendAll codecs (first :: rest)
            | (.ok fresh, w) =>
              w.runBatch codecs (PoolKey.fromRequest first) (first :: rest) fresh).2 := by
        cases hd : w.dialH2 first with
        | mk r w₁ =>
          obtain ⟨h₁, hfresh⟩ := h.dialH2 hd
          cases r with
          | error e => exact isolated_sendAll _ h₁
          | ok fresh =>
            obtain ⟨hid, hnone⟩ := hfresh fresh rfl
            exact isolated_runBatch h₁ (by simp) hid (fun k hk => absurd hk (hnone k)) hall
      cases hc : w.checkout (PoolKey.fromRequest first) with
      | mk found w₁ =>
        obtain ⟨h₁, hcarried, hnext, hfound⟩ := h.checkout hc
        cases found with
        | none => exact hdial h₁
        | some pooled =>
          have hmem := hfound pooled rfl
          simp only
          split
          · refine isolated_runBatch h₁ (by simp) (by rw [hnext]; exact h.known _ hmem)
              (fun k hk => ?_) hall
            rw [hcarried] at hk
            exact h.one _ _ _ hk hmem
          · exact hdial h₁

/-- A call that puts requests of different partitions on one connection. -/
def Call.mixes : Call → Bool
  | .sendMultiplexed reqs => World.mixes reqs
  | .send _ | .configure _ _ => false

theorem isolated_call (h : Isolated w) {c : Call} (hc : c.mixes = false) :
    Isolated (w.call codecs c) := by
  cases c with
  | send req => exact isolated_send h
  | sendMultiplexed reqs => exact isolated_sendMultiplexed h hc
  | configure perKey total => exact ⟨h.one, h.pooled, h.known⟩

theorem isolated_run {calls : List Call} (h : Isolated w) (hc : ∀ c ∈ calls, c.mixes = false) :
    Isolated (w.run codecs calls) := by
  induction calls generalizing w with
  | nil => exact h
  | cons c rest ih =>
    have hfirst := @isolated_call _ codecs h c (hc c List.mem_cons_self)
    exact ih hfirst fun c' hc' => hc c' (List.mem_cons_of_mem c hc')

/-- If no batch is mixed, then no connection carries requests of different keys, and idle
connections are kept under the key they carried. -/
theorem partitions_isolated (codecs : Codecs) (dials : List (Except Error Transport))
    (calls : List Call) (hc : ∀ c ∈ calls, c.mixes = false) :
    (∀ id k k', (id, k) ∈ ((start dials).run codecs calls).carried →
      (id, k') ∈ ((start dials).run codecs calls).carried → k = k') ∧
    ∀ k bucket, ((start dials).run codecs calls).pool.lookup k = some bucket →
      ∀ pc ∈ bucket, (pc.id, k) ∈ ((start dials).run codecs calls).carried := by
  have h := @isolated_run _ codecs calls (isolated_start dials) hc
  exact ⟨h.one, h.pooled⟩

/-- A page of a site fetches from `example.com`. -/
def visit (site path : String) : PoolRequest :=
  { Request.plain "GET" "example.com" path with partitionKey := some site }

/-- Two connections that answer one request each. -/
def twoDials : List (Except Error Transport) :=
  List.replicate 2 (.ok
    ⟨[.frame ⟨.settings, 0, 0, []⟩, .frame ⟨.headers, 5, 1, [0x88]⟩], [], [], []⟩)

theorem partitions_isolated_visits :
    ((start twoDials).run .unavailable
        [.send (visit "siteA" "/a"), .sendMultiplexed [visit "siteB" "/b"]]).carried =
      [(0, .fromRequest (visit "siteA" "/a")), (1, .fromRequest (visit "siteB" "/b"))] ∧
    ∀ id k k',
      (id, k) ∈ ((start twoDials).run .unavailable
        [.send (visit "siteA" "/a"), .sendMultiplexed [visit "siteB" "/b"]]).carried →
      (id, k') ∈ ((start twoDials).run .unavailable
        [.send (visit "siteA" "/a"), .sendMultiplexed [visit "siteB" "/b"]]).carried → k = k' :=
  ⟨by decide +kernel, (partitions_isolated _ _ _ (by decide +kernel)).1⟩

/-- A batch of two partitions is answered on one connection, which is then kept under the key of
the first. -/
theorem mixed_batch_shares_connection :
    (((start [.ok ⟨[.frame ⟨.settings, 0, 0, []⟩, .frame ⟨.headers, 5, 1, [0x88]⟩,
        .frame ⟨.headers, 5, 3, [0x88]⟩], [], [], []⟩]).sendMultiplexed .unavailable
        [visit "siteA" "/a", visit "siteB" "/b"]).1.all fun r => r.toOption.isSome) = true ∧
      ((start [.ok ⟨[.frame ⟨.settings, 0, 0, []⟩, .frame ⟨.headers, 5, 1, [0x88]⟩,
        .frame ⟨.headers, 5, 3, [0x88]⟩], [], [], []⟩]).run .unavailable
        [.sendMultiplexed [visit "siteA" "/a", visit "siteB" "/b"]]).carried =
          [(0, .fromRequest (visit "siteA" "/a")), (0, .fromRequest (visit "siteB" "/b"))] ∧
      PoolKey.fromRequest (visit "siteA" "/a") ≠ PoolKey.fromRequest (visit "siteB" "/b") := by
  decide +kernel

end World

end Rsurl.Http2
