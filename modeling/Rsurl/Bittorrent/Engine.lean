import Rsurl.Bittorrent.Books

/-!
# Runs of the engine

The loop of the engine takes what the workers send in any order, and evicts idle peers. A worker
joins once, and no more than `maxPeers` of them live at a time. In every state of every run the books
are right.
-/

namespace Rsurl.Bittorrent

open Library

namespace Swarm

variable {n : Nat} {sha1 : Bytes → Bytes} {first : Storage} {s : Swarm n} {peer : Fin n}
  {joined spoke : Set (Fin n)}

/-! ## One event -/

theorem Inv.clearPiece (h : s.Inv sha1 first joined spoke) (env : Env n) (peer : Fin n)
    (index : Nat) : (s.clearPiece env peer index).Inv sha1 first joined spoke :=
  ⟨h.sound.clearPiece env peer index, h.told.clearPiece env peer index⟩

theorem Inv.note (h : s.Inv sha1 first joined spoke) {x : Note n} (hx : Quiet x) :
    (s.note x).Inv sha1 first joined spoke := ⟨h.sound.note x, h.told.note hx⟩

theorem Inv.flag (h : s.Inv sha1 first joined spoke) (peer : Fin n) (unchoked : Bool) :
    (s.flag peer unchoked).Inv sha1 first joined spoke :=
  ⟨h.sound.flag peer unchoked, h.told.flag peer unchoked⟩

theorem Inv.tick (h : s.Inv sha1 first joined spoke) (env : Env n) :
    (s.tick env).Inv sha1 first joined spoke := ⟨h.sound.tick env, h.told.tick env⟩

/-- Bad data: the peer is marked, and banned in the end. -/
theorem Inv.strike (h : s.Inv sha1 first joined spoke) (env : Env n) {index : Nat} {data : Bytes}
    (hspoke : peer ∈ spoke) (hon : s.on peer ≠ some index)
    (hbad : s.storage.hashes[index]? ≠ some (sha1 data)) :
    ((s.note (.received (.pieceDone peer index data))).strike env peer index).Inv sha1 first joined
      spoke := by
  unfold Swarm.strike
  have hpeers : (s.note (.received (.pieceDone peer index data))).peers peer = s.peers peer := rfl
  rw [hpeers]
  cases hps : s.peers peer with
  | none =>
    refine ⟨h.sound.note _, h.told.received hspoke hon fun _ ps hps' => ?_⟩
    rw [hps] at hps'
    cases hps'
  | some ps =>
    have hpunished : ((s.note (.received (.pieceDone peer index data))).punish peer index ps).Inv
        sha1 first joined spoke :=
      ⟨(h.sound.note _).punish hps index, h.told.punish hspoke hon hps hbad⟩
    dsimp only
    split
    · have hstopped := hpunished.note (x := .stopped peer) trivial
      exact (hstopped.gone env peer).mono Set.sdiff_subset subset_rfl
    · exact hpunished

/-- When the data of a piece is dealt with, every idle peer is looked at. -/
theorem Inv.pieceDone_assignIdle (h : s.Inv sha1 first joined spoke) (env : Env n) (index : Nat)
    (data : Bytes) (hspoke : peer ∈ spoke) :
    (s.pieceDone sha1 env peer index data).Post
      (fun _ s' => ∃ t : Swarm n, t.Inv sha1 first joined spoke ∧ s' = t.assignIdle env)
      (fun _ s' => s'.Bookkeeping sha1 first) := by
  have hclear := h.clearPiece env peer index
  have hon := on_clearPiece env peer index s
  unfold Swarm.pieceDone
  dsimp only
  generalize s.clearPiece env peer index = t at hclear hon
  by_cases hhas : t.storage.has index = true
  · rw [if_pos (show (t.note _).storage.has index = true from hhas)]
    have hnoted : (t.note (.received (.pieceDone peer index data))).Inv sha1 first joined spoke :=
      ⟨hclear.sound.note _, hclear.told.received hspoke hon fun _ _ _ => hhas⟩
    exact ⟨_, hnoted.assign env peer, rfl⟩
  · rw [if_neg (show ¬(t.note _).storage.has index = true from hhas)]
    have hwrites := writes_writePiece sha1 env.faults index data t.storage
    rw [show (t.note (.received (.pieceDone peer index data))).storage = t.storage from rfl]
    generalize t.storage.writePiece sha1 env.faults index data = result at hwrites
    cases hwrites with
    | failed e st hbits hshape => exact hclear.bookkeeping_failed hon hbits hshape
    | refused hbad =>
      exact ⟨_, (hclear.strike env hspoke hon hbad).assign env peer, rfl⟩
    | wrote st hwrote hgood =>
      have hnoted : (t.note (.received (.pieceDone peer index data))).Inv sha1 first joined spoke :=
        ⟨hclear.sound.note _, hclear.told.received hspoke hon fun hbad => absurd hgood hbad⟩
      have hdone : ((t.note (.received (.pieceDone peer index data))).complete env index st).Inv
          sha1 first joined spoke :=
        ⟨hnoted.sound.complete env hwrote, hnoted.told.complete env hnoted.sound.storage hwrote⟩
      exact ⟨_, hdone.assign env peer, rfl⟩

theorem Inv.pieceDone (h : s.Inv sha1 first joined spoke) (env : Env n) (index : Nat) (data : Bytes)
    (hspoke : peer ∈ spoke) :
    (s.pieceDone sha1 env peer index data).Post (fun _ s' => s'.Inv sha1 first joined spoke)
      (fun _ s' => s'.Bookkeeping sha1 first) := by
  have hpost := h.pieceDone_assignIdle env index data hspoke
  cases hres : s.pieceDone sha1 env peer index data with
  | error e s' =>
    rw [hres] at hpost
    exact hpost
  | ok u s' =>
    rw [hres] at hpost
    obtain ⟨t, ht, rfl⟩ := hpost
    exact ht.assignIdle env

theorem Inv.handle_joined (h : s.Inv sha1 first joined spoke) (env : Env n) {bf : Bitfield}
    (hnew : peer ∉ spoke) (hfree : s.peers peer = none) (hlen : bf.len = s.storage.numPieces)
    (hcrowd : s.crowd < 2 ^ 32 - 1) :
    (s.handle sha1 env (.joined peer bf)).Post
      (fun _ s' => s'.Inv sha1 first (insert peer joined) (insert peer spoke))
      (fun _ s' => s'.Bookkeeping sha1 first) := by
  have hnoted := h.note (x := .received (.joined peer bf)) trivial
  have hjoined : ((s.note (.received (.joined peer bf))).join env peer bf).Inv sha1 first
      (insert peer joined) spoke :=
    ⟨hnoted.sound.join env hfree hlen hcrowd, hnoted.told.join env bf hnew⟩
  exact (hjoined.assign env peer).mono subset_rfl (Set.subset_insert ..)

/-- The events of a peer that has joined, but for the last one. -/
theorem Inv.handle (h : s.Inv sha1 first joined spoke) (env : Env n) {ev : ToEngine n}
    (hcrowd : s.crowd < 2 ^ 32 - 1)
    (hspoke : ∀ peer index data, ev = .pieceDone peer index data → peer ∈ spoke)
    (hjoined : ∀ peer bf, ev ≠ .joined peer bf) :
    (s.handle sha1 env ev).Post (fun _ s' => s'.Inv sha1 first joined spoke)
      (fun _ s' => s'.Bookkeeping sha1 first) := by
  cases ev with
  | joined peer bf => exact absurd rfl (hjoined peer bf)
  | «have» peer index =>
    have hnoted := h.note (x := .received (.have peer index)) trivial
    unfold Swarm.handle
    dsimp only
    cases hps : s.peers peer with
    | none => exact hnoted
    | some ps =>
      dsimp only
      by_cases hnew : index < ps.bf.len ∧ ps.bf.has index = false
      · rw [if_pos hnew]
        have hgained : ((s.note (.received (.have peer index))).gain peer index ps).Inv sha1 first
            joined spoke :=
          ⟨hnoted.sound.gain hps hnew hcrowd, hnoted.told.gain hps index⟩
        show Inv ..
        split
        · exact hgained
        · exact (hgained.tick env).assign env peer
      · rw [if_neg hnew]
        exact hnoted
  | choked peer => exact (h.note (x := .received (.choked peer)) trivial).flag peer false
  | unchoked peer =>
    have hnoted := h.note (x := .received (.unchoked peer)) trivial
    unfold Swarm.handle
    dsimp only
    cases hps : s.peers peer with
    | none => exact hnoted
    | some ps => exact ((hnoted.flag peer true).tick env).assign env peer
  | pieceDone peer index data => exact h.pieceDone env index data (hspoke peer index data rfl)
  | released peer index =>
    have hnoted := h.note (x := .received (.released peer index)) trivial
    exact ((hnoted.clearPiece env peer index).flag peer false).assignIdle env
  | gone peer =>
    have hnoted := h.note (x := .received (.gone peer)) trivial
    exact (hnoted.gone env peer).mono Set.sdiff_subset subset_rfl

theorem Inv.evictIdle (h : s.Inv sha1 first joined spoke) (env : Env n) (after : Nat)
    (order : List (Fin n)) : (s.evictIdle env after order).Inv sha1 first joined spoke := by
  unfold Swarm.evictIdle
  generalize order.filter _ = stale
  induction stale generalizing s with
  | nil => exact h
  | cons id rest ih =>
    refine ih ((Inv.gone ?_ env id).mono Set.sdiff_subset subset_rfl)
    split
    · exact h.note (x := .stopped id) trivial
    · exact h

end Swarm

namespace Engine

variable {n : Nat} {sha1 : Bytes → Bytes} {storage : Storage} {e e' : Engine n}

/-- The worker runs. -/
def alive (e : Engine n) (id : Fin n) : Bool := e.phase id = .dialing || e.phase id = .serving

def joined (e : Engine n) : Set (Fin n) := fun id => e.phase id = .serving

def spoke (e : Engine n) : Set (Fin n) := fun id => e.phase id = .serving ∨ e.phase id = .over

/-- What holds in every state of a run. -/
structure Standing (sha1 : Bytes → Bytes) (storage : Storage) (e : Engine n) : Prop where
  books : e.swarm.Bookkeeping sha1 storage
  inv : e.failed = none → e.swarm.Inv sha1 storage e.joined e.spoke
  live : e.live = tally e.alive
  few : e.live ≤ maxPeers
  next : ∀ id : Fin n, e.nextPeer ≤ id → e.phase id = .waiting

theorem Standing.crowd (h : e.Standing sha1 storage) (hrun : e.failed = none) :
    e.swarm.crowd < 2 ^ 32 - 1 := by
  have hle : e.swarm.crowd ≤ e.live := by
    rw [h.live]
    refine tally_mono fun id hid => ?_
    obtain ⟨ps, hps⟩ := Option.isSome_iff_exists.mp hid
    have hphase : e.phase id = .serving := (h.inv hrun).told.roster id ps hps
    simp [alive, hphase]
  have hfew := h.few
  unfold maxPeers at hfew
  omega

theorem Standing.spawnMore (h : e.Standing sha1 storage) (k : Nat) :
    (e.spawnMore k).Standing sha1 storage := by
  induction k generalizing e with
  | zero => exact h
  | succ k ih =>
    rw [Engine.spawnMore]
    split
    · rename_i hroom
      have hwaiting := h.next ⟨e.nextPeer, hroom.2⟩ le_rfl
      set started : Engine n := { e with
        phase := Function.update e.phase ⟨e.nextPeer, hroom.2⟩ .dialing
        nextPeer := e.nextPeer + 1
        live := e.live + 1 } with hdef
      have hself : started.phase ⟨e.nextPeer, hroom.2⟩ = .dialing := Function.update_self ..
      have hother {id : Fin n} (hid : id ≠ ⟨e.nextPeer, hroom.2⟩) : started.phase id = e.phase id :=
        Function.update_of_ne hid ..
      have hne {id : Fin n} {phase : Phase} (hid : e.phase id = phase) (hp : phase ≠ .waiting) :
          id ≠ ⟨e.nextPeer, hroom.2⟩ := by
        rintro rfl
        exact hp (hid.symm.trans hwaiting)
      refine ih (e := started) ⟨h.books, fun hrun => (h.inv hrun).mono ?_ ?_, ?_, ?_, fun id hid => ?_⟩
      · intro id (hid : e.phase id = .serving)
        exact (hother (hne hid nofun)).trans hid
      · rintro id (hid | hid)
        · exact .inl ((hother (hne hid nofun)).trans hid)
        · exact .inr ((hother (hne hid nofun)).trans hid)
      · show e.live + 1 = _
        rw [h.live]
        refine (tally_succ ⟨e.nextPeer, hroom.2⟩ (fun id hid => ?_) ?_ ?_).symm
        · rw [alive, alive, hother hid]
        · simp [alive, hwaiting]
        · simp [alive, hself]
      · exact hroom.1
      · have hid' : e.nextPeer + 1 ≤ id.1 := hid
        refine (hother ?_).trans (h.next id (by omega))
        rintro rfl
        exact absurd hid' (by simp)
    · exact h

theorem Standing.gone (h : e.Standing sha1 storage) (hrun : e.failed = none) (now : Nat)
    (faults : Faults) {peer : Fin n} (halive : e.alive peer = true) :
    (e.receive sha1 now faults (.gone peer)).Standing sha1 storage := by
  set left : Engine n := { e with
    live := e.live - 1
    phase := Function.update e.phase peer .over
    swarm := (e.swarm.note (.received (.gone peer))).gone (e.env now faults) peer } with hdef
  have hself : left.phase peer = .over := Function.update_self ..
  have hother {id : Fin n} (hid : id ≠ peer) : left.phase id = e.phase id :=
    Function.update_of_ne hid ..
  have hinv := (((h.inv hrun).note (x := .received (.gone peer)) trivial).gone
    (e.env now faults) peer)
  have hinv' : left.swarm.Inv sha1 storage left.joined left.spoke := by
    refine hinv.mono ?_ ?_
    · rintro id ⟨hid, hne⟩
      exact (hother hne).trans hid
    · intro id hid
      by_cases hne : id = peer
      · exact .inr (hne ▸ hself)
      · exact hid.imp (hother hne).trans (hother hne).trans
  have hlive : e.live = tally left.alive + 1 := by
    rw [h.live]
    refine tally_succ peer (fun id hid => ?_) ?_ halive
    · rw [alive, alive, hother hid]
    · simp [alive, hself]
  refine Standing.spawnMore (e := left) ⟨hinv'.bookkeeping, fun _ => hinv', ?_, ?_, fun id hid => ?_⟩ n
  · show e.live - 1 = _
    omega
  · exact (Nat.sub_le ..).trans h.few
  · have hwaiting := h.next id hid
    refine (hother ?_).trans hwaiting
    rintro rfl
    simp [alive, hwaiting] at halive

theorem Standing.absent (h : e.Standing sha1 storage) (hrun : e.failed = none) {peer : Fin n}
    (hphase : e.phase peer = .dialing) : e.swarm.peers peer = none := by
  cases hps : e.swarm.peers peer with
  | none => rfl
  | some ps =>
    have hserving : e.phase peer = .serving := (h.inv hrun).told.roster peer ps hps
    rw [hphase] at hserving
    cases hserving

theorem Standing.joins (h : e.Standing sha1 storage) (hrun : e.failed = none) (now : Nat)
    (faults : Faults) {peer : Fin n} {bf : Bitfield} (hphase : e.phase peer = .dialing)
    (hlen : bf.len = e.swarm.storage.numPieces) :
    (e.receive sha1 now faults (.joined peer bf)).Standing sha1 storage := by
  have hinv := h.inv hrun
  have hfree := h.absent hrun hphase
  have hnew : peer ∉ e.spoke := by
    rintro (hserving | hover)
    · rw [hphase] at hserving
      cases hserving
    · rw [hphase] at hover
      cases hover
  have hpost := hinv.handle_joined (e.env now faults) hnew hfree hlen (h.crowd hrun)
  have hother {id : Fin n} (hid : id ≠ peer) :
      Function.update e.phase peer .serving id = e.phase id := Function.update_of_ne hid ..
  have hself : Function.update e.phase peer .serving peer = .serving := Function.update_self ..
  unfold receive
  dsimp only
  cases hres : e.swarm.handle sha1 (e.env now faults) (.joined peer bf) with
  | error err s =>
    rw [hres] at hpost
    exact ⟨hpost, nofun, h.live, h.few, h.next⟩
  | ok u s =>
    rw [hres] at hpost
    set joins : Engine n := { e with swarm := s, phase := Function.update e.phase peer .serving }
      with hdef
    have hinv' : s.Inv sha1 storage joins.joined joins.spoke := by
      refine hpost.mono ?_ ?_
      · intro id hid
        by_cases hne : id = peer
        · exact hne ▸ hself
        · exact (hother hne).trans (hid.resolve_left hne)
      · intro id hid
        by_cases hne : id = peer
        · exact .inl (hne ▸ hself)
        · exact (hid.resolve_left hne).imp (hother hne).trans (hother hne).trans
    refine ⟨hinv'.bookkeeping, fun _ => hinv', h.live.trans ?_, h.few, fun id hid => ?_⟩
    · refine (tally_same peer (fun id hid => ?_) ?_).symm
      · rw [alive, alive, show joins.phase id = e.phase id from hother hid]
      · simp [alive, hphase]
    · have hwaiting := h.next id hid
      refine (hother ?_).trans hwaiting
      rintro rfl
      rw [hphase] at hwaiting
      cases hwaiting

/-- The engine after an event that only the swarm looks at. -/
def handled (e : Engine n) : Outcome (Swarm n) Unit → Engine n
  | .ok _ s => { e with swarm := s }
  | .error err s => { e with swarm := s, failed := some err }

theorem Standing.receive (h : e.Standing sha1 storage) (hrun : e.failed = none) (now : Nat)
    (faults : Faults) {ev : ToEngine n} (hev : e.CanSend ev) :
    (e.receive sha1 now faults ev).Standing sha1 storage := by
  have hother (hquiet : ∀ peer bf, ev ≠ .joined peer bf)
      (hspoke : ∀ peer index data, ev = .pieceDone peer index data → peer ∈ e.spoke)
      (heq : e.receive sha1 now faults ev = e.handled (e.swarm.handle sha1 (e.env now faults) ev)) :
      (e.receive sha1 now faults ev).Standing sha1 storage := by
    have hpost := (h.inv hrun).handle (e.env now faults) (h.crowd hrun) hspoke hquiet
    rw [heq]
    cases hres : e.swarm.handle sha1 (e.env now faults) ev with
    | error err s =>
      rw [hres] at hpost
      exact ⟨hpost, (fun hnone => by cases hnone), h.live, h.few, h.next⟩
    | ok u s =>
      rw [hres] at hpost
      exact ⟨Swarm.Inv.bookkeeping hpost, fun _ => hpost, h.live, h.few, h.next⟩
  cases ev with
  | joined peer bf => exact h.joins hrun now faults hev.1 hev.2
  | gone peer => exact h.gone hrun now faults (by simpa [alive, CanSend] using hev)
  | «have» peer index => exact hother (by simp) (by simp) rfl
  | choked peer => exact hother (by simp) (by simp) rfl
  | unchoked peer => exact hother (by simp) (by simp) rfl
  | pieceDone peer index data =>
    refine hother (by simp) (fun peer' index' data' heq => ?_) rfl
    cases heq
    exact .inl hev
  | released peer index => exact hother (by simp) (by simp) rfl

theorem Standing.step (h : e.Standing sha1 storage) (hstep : Step sha1 e e') :
    e'.Standing sha1 storage := by
  cases hstep with
  | closes peer => exact ⟨h.books, h.inv, h.live, h.few, h.next⟩
  | receives ev now faults hrun hev => exact h.receive hrun now faults hev
  | evicts now after faults order hrun hnext =>
    have hinv := (h.inv hrun).evictIdle (e.env now faults) after order
    exact ⟨hinv.bookkeeping, fun _ => hinv, h.live, h.few, h.next⟩

theorem standing_start (hst : storage.have.len = storage.numPieces) (now : Nat) :
    (start n storage now).Standing sha1 storage := by
  refine Standing.spawnMore ?_ n
  have hnobody (id : Fin n) (f : PeerState → Bool) : (none : Option PeerState).any f = false := rfl
  have hcounts (i : Nat) : (Picker.new storage.numPieces).availability[i]? =
      if i < storage.numPieces then some 0 else none := List.getElem?_replicate
  have hinv : Swarm.Inv sha1 storage (fun _ => False) (fun _ => False)
      (⟨storage, Picker.new storage.numPieces, fun _ => none, [], clampBusy storage.pieceLength, now,
        []⟩ : Swarm n) := by
    refine ⟨⟨⟨hst, nofun, fun i => ?_, nofun, nofun, nofun, ?_⟩, nofun⟩,
      ⟨nofun, nofun, nofun, nofun, nofun, fun _ hp => hp, nofun, nofun, .nil⟩⟩
    · refine (hcounts i).trans ?_
      rw [Swarm.advertisers, tally_none fun id => hnobody id _]
    · have hidle : tally (fun _ : Fin n => false) = 0 := tally_none fun _ => rfl
      exact hidle.le.trans (Nat.zero_le _)
  refine ⟨hinv.bookkeeping, fun _ => hinv.mono nofun nofun, ?_, Nat.zero_le _, fun _ _ => rfl⟩
  exact (tally_none fun id => rfl).symm

theorem Standing.run (hst : storage.have.len = storage.numPieces) {now : Nat}
    (h : Reached sha1 storage now e) : e.Standing sha1 storage := by
  induction h with
  | refl => exact standing_start hst now
  | tail _ hstep ih => exact ih.step hstep

/-- In every state of every run, the failed ones included, the books are right. -/
theorem swarm_bookkeeping (sha1 : Bytes → Bytes) (storage : Storage)
    (hst : storage.have.len = storage.numPieces) (now : Nat) {e : Engine n}
    (h : Reached sha1 storage now e) : e.swarm.Bookkeeping sha1 storage := (Standing.run hst h).books

/-- A torrent of two pieces, none of them here. -/
def twoPieces : Storage where
  pieceLength := 2
  total := 3
  hashes := [smallSha1 [1, 2], smallSha1 [3]]
  files := slotsFrom 0 [("a", 3)]
  «have» := Bitfield.new 2
  window := none
  disk := fun _ => none

theorem swarm_bookkeeping_joined :
    ((start 1 twoPieces 0).receive smallSha1 5 noFaults
      (.joined 0 ((Bitfield.new 2).set 1))).swarm.Bookkeeping smallSha1 twoPieces :=
  swarm_bookkeeping smallSha1 twoPieces rfl 0 (.single (.receives _ 5 noFaults rfl ⟨rfl, rfl⟩))

end Engine

end Rsurl.Bittorrent
