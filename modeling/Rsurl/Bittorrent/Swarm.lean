import Rsurl.Bittorrent.Storage
import Rsurl.Library.Tally

/-!
# The swarm

The engine owns the storage and the picker, and hands whole pieces to the peers that are unchoked and
idle. Peers are numbered by their address, and tell the engine what happens by events. A set of
pieces is a list without duplicates. `log` is what the engine was told and what it did.
-/

namespace Rsurl.Bittorrent

open Library

def maxPeers : Nat := 50
def maxStrikes : Nat := 3
def maxBuffered : Nat := 512 * 1024 * 1024

/-- Peer to engine. -/
inductive ToEngine (n : Nat) where
  /-- First unchoke: the peer's pieces so far. -/
  | joined (peer : Fin n) (bitfield : Bitfield)
  | «have» (peer : Fin n) (index : Nat)
  | choked (peer : Fin n)
  | unchoked (peer : Fin n)
  | pieceDone (peer : Fin n) (index : Nat) (data : Bytes)
  /-- Choked too long mid-piece: the piece is handed back, the peer stays. -/
  | released (peer : Fin n) (index : Nat)
  /-- The worker exited. -/
  | gone (peer : Fin n)

structure Progress where
  downloaded : Nat
  total : Nat
  piecesComplete : Nat
  numPieces : Nat
  uploaded : Nat
  deriving DecidableEq, Repr

def snapshot (st : Storage) : Progress :=
  ⟨st.bytesComplete, st.total, st.have.count, st.numPieces, 0⟩

inductive Note (n : Nat) where
  | received (ev : ToEngine n)
  /-- A piece that nobody was on is fresh. -/
  | assigned (peer : Fin n) (index size : Nat) (fresh : Bool)
  | stopped (peer : Fin n)
  | completed (index : Nat) (progress : Progress)

structure PeerState where
  bf : Bitfield
  piece : Option Nat
  unchoked : Bool
  strikes : Nat
  /-- Pieces this peer sent corrupt data for. -/
  bad : List Nat
  idleSince : Nat

structure Swarm (n : Nat) where
  storage : Storage
  picker : Picker
  peers : Fin n → Option PeerState
  /-- Pieces currently being fetched. -/
  assigned : List Nat
  maxBusy : Nat
  lastProgress : Nat
  log : List (Note n)

/-- The clock, the inboxes that still have a reader, and the file system. -/
structure Env (n : Nat) where
  now : Nat
  inbox : Fin n → Bool
  faults : Faults

/-- Of the pieces in flight that the peer has and we lack, the one with the fewest peers on it. -/
def endgamePick (st : Storage) (bf : Bitfield) (inFlight assigned : List Nat) : Option Nat :=
  (assigned.filter fun idx => bf.has idx && !st.has idx).foldl (fun best idx => match best with
    | none => some idx
    | some b =>
      if inFlight.count idx < inFlight.count b ∨ inFlight.count idx = inFlight.count b ∧ idx < b
      then some idx else some b) none

/-- The peer's pieces, less those it has corrupted. -/
def PeerState.usable (ps : PeerState) : Bitfield := ps.bad.foldl Bitfield.unset ps.bf

namespace Swarm

variable {n : Nat}

def note (x : Note n) (s : Swarm n) : Swarm n := { s with log := s.log ++ [x] }

def setPeer (peer : Fin n) (ps : Option PeerState) (s : Swarm n) : Swarm n :=
  { s with peers := Function.update s.peers peer ps }

/-- The piece that the peer is working on. -/
def on (s : Swarm n) (peer : Fin n) : Option Nat := (s.peers peer).bind (·.piece)

def busy (s : Swarm n) : Nat := tally fun id => (s.on id).isSome

/-- Unchoked, and not working. -/
def idle (s : Swarm n) (peer : Fin n) : Bool :=
  (s.peers peer).any fun ps => ps.piece.isNone && ps.unchoked

/-- What to give to a peer, and whether nobody is on it. -/
def choose (s : Swarm n) (ps : PeerState) : Option (Nat × Bool) :=
  match s.picker.pick s.storage.have ps.usable s.assigned.toFinset with
  | some idx => some (idx, true)
  | none =>
    if s.storage.numPieces - (s.storage.have.count + s.assigned.length) = 0 then
      (endgamePick s.storage ps.usable ((List.finRange n).filterMap s.on) s.assigned).map (·, false)
    else none

def grant (peer : Fin n) (ps : PeerState) (idx : Nat) (fresh : Bool) (s : Swarm n) : Swarm n :=
  { s with
    peers := Function.update s.peers peer (some { ps with piece := some idx })
    assigned := if fresh then s.assigned.insert idx else s.assigned
    log := s.log ++ [.assigned peer idx (s.storage.pieceSize idx) fresh] }

def assign (env : Env n) (peer : Fin n) (s : Swarm n) : Swarm n :=
  if s.storage.isComplete = true ∨ s.maxBusy ≤ s.busy then s
  else match s.peers peer with
    | none => s
    | some ps =>
      if ps.unchoked = false ∨ ps.piece.isSome = true then s
      else match s.choose ps with
        | none => s
        | some (idx, fresh) => if env.inbox peer then s.grant peer ps idx fresh else s

def assignIdle (env : Env n) (s : Swarm n) : Swarm n :=
  ((List.finRange n).filter s.idle).foldl (fun s id => s.assign env id) s

/-- Free `index` unless another peer is still on it. -/
def release (index : Nat) (s : Swarm n) : Swarm n :=
  if ∃ id, s.on id = some index then s
  else { s with assigned := s.assigned.filter (· ≠ index) }

/-- A peer leaves the table, and its piece is free. -/
def leave (peer : Fin n) (ps : PeerState) (s : Swarm n) : Swarm n :=
  let s' := { s.setPeer peer none with picker := s.picker.removeBitfield ps.bf }
  match ps.piece with
  | some p => s'.release p
  | none => s'

/-- A worker exited. -/
def gone (env : Env n) (peer : Fin n) (s : Swarm n) : Swarm n :=
  assignIdle env (match s.peers peer with
    | some ps => s.leave peer ps
    | none => s)

/-- `peer` is no longer working on `index`. -/
def clearPiece (env : Env n) (peer : Fin n) (index : Nat) (s : Swarm n) : Swarm n :=
  release index (match s.peers peer with
    | some ps =>
      if ps.piece = some index then
        s.setPeer peer (some { ps with piece := none, idleSince := env.now })
      else s
    | none => s)

/-- Bad data from `peer` for `index`. -/
def punish (peer : Fin n) (index : Nat) (ps : PeerState) (s : Swarm n) : Swarm n :=
  s.setPeer peer (some { ps with strikes := ps.strikes + 1, bad := ps.bad.insert index })

def strike (env : Env n) (peer : Fin n) (index : Nat) (s : Swarm n) : Swarm n :=
  match s.peers peer with
  | none => s
  | some ps =>
    let s := s.punish peer index ps
    if maxStrikes ≤ ps.strikes + 1 then gone env peer (s.note (.stopped peer)) else s

/-- The piece is on disk. -/
def complete (env : Env n) (index : Nat) (st : Storage) (s : Swarm n) : Swarm n :=
  { s with
    storage := st
    assigned := s.assigned.filter (· ≠ index)
    lastProgress := env.now
    log := s.log ++ [.completed index (snapshot st)] }

def flag (peer : Fin n) (unchoked : Bool) (s : Swarm n) : Swarm n :=
  match s.peers peer with
  | none => s
  | some ps => s.setPeer peer (some { ps with unchoked := unchoked })

def tick (env : Env n) (s : Swarm n) : Swarm n := { s with lastProgress := env.now }

/-- A peer that was not there before. -/
def join (env : Env n) (peer : Fin n) (bitfield : Bitfield) (s : Swarm n) : Swarm n :=
  { s with
    picker := s.picker.addBitfield bitfield
    peers := Function.update s.peers peer (some ⟨bitfield, none, true, 0, [], env.now⟩)
    lastProgress := env.now }

/-- The peer has one more piece. -/
def gain (peer : Fin n) (index : Nat) (ps : PeerState) (s : Swarm n) : Swarm n :=
  { s with
    peers := Function.update s.peers peer (some { ps with bf := ps.bf.set index })
    picker := s.picker.addHave index }

/-- The data of a piece: `ok true` was written, `ok false` failed the hash check. -/
def pieceDone (sha1 : Bytes → Bytes) (env : Env n) (peer : Fin n) (index : Nat) (data : Bytes)
    (s : Swarm n) : Outcome (Swarm n) Unit :=
  let s := (s.clearPiece env peer index).note (.received (.pieceDone peer index data))
  if s.storage.has index then .ok () (assignIdle env (s.assign env peer))
  else match s.storage.writePiece sha1 env.faults index data with
    | .ok true st => .ok () (assignIdle env ((s.complete env index st).assign env peer))
    | .ok false _ => .ok () (assignIdle env ((s.strike env peer index).assign env peer))
    | .error e st => .error e { s with storage := st }

def handle (sha1 : Bytes → Bytes) (env : Env n) (ev : ToEngine n) (s : Swarm n) :
    Outcome (Swarm n) Unit :=
  match ev with
  | .joined peer bitfield => .ok () (((s.note (.received ev)).join env peer bitfield).assign env peer)
  | .have peer index =>
    match s.peers peer with
    | none => .ok () (s.note (.received ev))
    | some ps =>
      if index < ps.bf.len ∧ ps.bf.has index = false then
        let s := (s.note (.received ev)).gain peer index ps
        .ok () (if s.storage.has index then s else (s.tick env).assign env peer)
      else .ok () (s.note (.received ev))
  | .choked peer => .ok () ((s.note (.received ev)).flag peer false)
  | .unchoked peer =>
    match s.peers peer with
    | none => .ok () (s.note (.received ev))
    | some _ => .ok () ((((s.note (.received ev)).flag peer true).tick env).assign env peer)
  | .pieceDone peer index data => s.pieceDone sha1 env peer index data
  | .released peer index =>
    .ok () (assignIdle env (((s.note (.received ev)).clearPiece env peer index).flag peer false))
  | .gone peer => .ok () (gone env peer (s.note (.received ev)))

/-- Stop a peer, if it is still there. -/
def evict (env : Env n) (s : Swarm n) (peer : Fin n) : Swarm n :=
  gone env peer (if (s.peers peer).isSome then s.note (.stopped peer) else s)

/-- The peers come in the order of the table, which is any. -/
def evictIdle (env : Env n) (after : Nat) (order : List (Fin n)) (s : Swarm n) : Swarm n :=
  (order.filter fun id => (s.peers id).any fun ps =>
    ps.piece.isNone && decide (after ≤ env.now - ps.idleSince)).foldl (evict env) s

end Swarm

/-! ## The engine -/

/-- What the engine has heard of a worker. -/
inductive Phase where
  | waiting
  /-- It was started, and has not joined. -/
  | dialing
  | serving
  | over
  deriving DecidableEq, Repr

structure Engine (n : Nat) where
  swarm : Swarm n
  phase : Fin n → Phase
  /-- The worker has left `run_peer`, so nobody reads its inbox. -/
  closed : Fin n → Bool
  nextPeer : Nat
  live : Nat
  failed : Option Error

namespace Engine

variable {n : Nat}

/-- `spawn_more`, in at most so many turns. -/
def spawnMore : Nat → Engine n → Engine n
  | 0, e => e
  | k + 1, e =>
    if h : e.live < maxPeers ∧ e.nextPeer < n then
      spawnMore k { e with
        phase := Function.update e.phase ⟨e.nextPeer, h.2⟩ .dialing
        nextPeer := e.nextPeer + 1
        live := e.live + 1 }
    else e

def clampBusy (pieceLength : Nat) : Nat := max 1 (min (maxBuffered / max pieceLength 1) maxPeers)

def start (n : Nat) (storage : Storage) (now : Nat) : Engine n :=
  spawnMore n {
    swarm := ⟨storage, Picker.new storage.numPieces, fun _ => none, [],
      clampBusy storage.pieceLength, now, []⟩
    phase := fun _ => .waiting
    closed := fun _ => false
    nextPeer := 0
    live := 0
    failed := none }

/-- A worker joins once, with a bitfield of all the pieces, and says no more after `gone`. -/
def CanSend (e : Engine n) : ToEngine n → Prop
  | .joined peer bitfield => e.phase peer = .dialing ∧ bitfield.len = e.swarm.storage.numPieces
  | .gone peer => e.phase peer = .dialing ∨ e.phase peer = .serving
  | .have peer _ | .choked peer | .unchoked peer | .pieceDone peer _ _ | .released peer _ =>
    e.phase peer = .serving

instance (e : Engine n) (ev : ToEngine n) : Decidable (e.CanSend ev) := by
  cases ev <;> unfold CanSend <;> infer_instance

def env (e : Engine n) (now : Nat) (faults : Faults) : Env n := ⟨now, fun id => !e.closed id, faults⟩

/-- One event taken from the channel. -/
def receive (sha1 : Bytes → Bytes) (now : Nat) (faults : Faults) (ev : ToEngine n) (e : Engine n) :
    Engine n :=
  match ev with
  | .gone peer =>
    spawnMore n { e with
      live := e.live - 1
      phase := Function.update e.phase peer .over
      swarm := (e.swarm.note (.received ev)).gone (e.env now faults) peer }
  | .joined peer _ =>
    match e.swarm.handle sha1 (e.env now faults) ev with
    | .ok _ s => { e with swarm := s, phase := Function.update e.phase peer .serving }
    | .error err s => { e with swarm := s, failed := some err }
  | _ =>
    match e.swarm.handle sha1 (e.env now faults) ev with
    | .ok _ s => { e with swarm := s }
    | .error err s => { e with swarm := s, failed := some err }

def evictIdle (now : Nat) (faults : Faults) (after : Nat) (order : List (Fin n)) (e : Engine n) :
    Engine n :=
  { e with swarm := e.swarm.evictIdle (e.env now faults) after order }

/-- The loop of the engine, and the workers that leave. A failure ends the loop. -/
inductive Step (sha1 : Bytes → Bytes) (e : Engine n) : Engine n → Prop
  | closes (peer : Fin n) : Step sha1 e { e with closed := Function.update e.closed peer true }
  | receives (ev : ToEngine n) (now : Nat) (faults : Faults) (hrun : e.failed = none)
    (hev : e.CanSend ev) : Step sha1 e (e.receive sha1 now faults ev)
  | evicts (now after : Nat) (faults : Faults) (order : List (Fin n)) (hrun : e.failed = none)
    (hnext : e.nextPeer < n) : Step sha1 e (e.evictIdle now faults after order)

def Reached (sha1 : Bytes → Bytes) (storage : Storage) (now : Nat) : Engine n → Prop :=
  Relation.ReflTransGen (Step sha1) (start n storage now)

end Engine

end Rsurl.Bittorrent
