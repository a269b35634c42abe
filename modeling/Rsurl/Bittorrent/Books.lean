import Rsurl.Bittorrent.Moves

/-!
# The books of the swarm

In every state of a run, `assigned` are the pieces that some peer works on and the storage lacks, a
peer works on a piece that it has and did not corrupt, the picker counts the peers that have a piece,
no more peers are busy than may be, and no piece that is complete is handed out again.
-/

namespace Rsurl.Bittorrent

open Library

namespace Swarm

variable {n : Nat} {sha1 : Bytes → Bytes} {first : Storage} {s s' : Swarm n} {peer id : Fin n}
  {ps : PeerState} {idx p : Nat} {fresh : Bool} {joined spoke : Set (Fin n)}

/-- The peer sent data for the piece that fails its hash check. -/
def Corrupted (sha1 : Bytes → Bytes) (s : Swarm n) (id : Fin n) (p : Nat) : Prop :=
  ∃ data, .received (.pieceDone id p data) ∈ s.log ∧ s.storage.hashes[p]? ≠ some (sha1 data)

/-- The second note does not hand out what the first has completed. -/
def InOrder (a b : Note n) : Prop :=
  ∀ p x id size fresh, a = .completed p x → b ≠ .assigned id p size fresh

/-- What the log tells. `joined` are the peers that may be there, and `spoke` those that may have
sent a piece. -/
structure Told (sha1 : Bytes → Bytes) (first : Storage) (joined spoke : Set (Fin n)) (s : Swarm n) :
    Prop where
  roster : ∀ id ps, s.peers id = some ps → id ∈ joined
  spoken : ∀ id p data, .received (.pieceDone id p data) ∈ s.log → id ∈ spoke
  away : ∀ id p, s.Corrupted sha1 id p → s.on id ≠ some p
  marked : ∀ id p ps, s.Corrupted sha1 id p → s.peers id = some ps →
    s.storage.has p = true ∨ p ∈ ps.bad
  blamed : ∀ id p ps, s.peers id = some ps → p ∈ ps.bad → s.Corrupted sha1 id p
  kept : ∀ p, first.has p = true → s.storage.has p = true
  completed : ∀ p x, .completed p x ∈ s.log → s.storage.has p = true
  new : ∀ id p size fresh, .assigned id p size fresh ∈ s.log → first.has p = false
  once : s.log.Pairwise InOrder

theorem Told.mono (h : s.Told sha1 first joined spoke) {joined' spoke' : Set (Fin n)}
    (hj : joined ⊆ joined') (hs : spoke ⊆ spoke') : s.Told sha1 first joined' spoke' :=
  { h with
    roster := fun id ps hps => hj (h.roster id ps hps)
    spoken := fun id p data hmem => hs (h.spoken id p data hmem) }

/-- The log has not changed, and no peer has a new piece or is new. -/
theorem Told.keeps (h : s.Told sha1 first joined spoke) {joined' : Set (Fin n)}
    (hlog : s'.log = s.log) (hstorage : s'.storage = s.storage)
    (hpeers : ∀ id ps', s'.peers id = some ps' → id ∈ joined' ∧ ∃ ps, s.peers id = some ps ∧
      ps'.bad = ps.bad ∧ (ps'.piece = ps.piece ∨ ps'.piece = none)) :
    s'.Told sha1 first joined' spoke := by
  have hcorrupted (id : Fin n) (p : Nat) : s'.Corrupted sha1 id p ↔ s.Corrupted sha1 id p := by
    rw [Corrupted, Corrupted, hlog, hstorage]
  refine ⟨fun id ps hps => (hpeers id ps hps).1, ?_, fun id p hc hon => ?_, fun id p ps' hc hps' => ?_,
    fun id p ps' hps' hbad => ?_, ?_, ?_, ?_, ?_⟩
  · rw [hlog]
    exact h.spoken
  · cases hps' : s'.peers id with
    | none =>
      rw [on, hps'] at hon
      cases hon
    | some ps' =>
      obtain ⟨-, ps, hps, -, hpiece⟩ := hpeers id ps' hps'
      rw [on_eq hps'] at hon
      rcases hpiece with hpiece | hpiece
      · exact h.away id p ((hcorrupted id p).mp hc) ((on_eq hps).trans (hpiece ▸ hon))
      · rw [hpiece] at hon
        cases hon
  · obtain ⟨-, ps, hps, hbad, -⟩ := hpeers id ps' hps'
    rw [hstorage, hbad]
    exact h.marked id p ps ((hcorrupted id p).mp hc) hps
  · obtain ⟨-, ps, hps, hsame, -⟩ := hpeers id ps' hps'
    exact (hcorrupted id p).mpr (h.blamed id p ps hps (hsame ▸ hbad))
  · rw [hstorage]
    exact h.kept
  · rw [hlog, hstorage]
    exact h.completed
  · rw [hlog]
    exact h.new
  · rw [hlog]
    exact h.once

/-! ## Notes -/

/-- A note that is neither of a piece that was sent nor of one that was completed or handed out. -/
def Quiet : Note n → Prop
  | .received (.pieceDone ..) | .completed .. | .assigned .. => False
  | _ => True

theorem once_append (h : s.log.Pairwise InOrder) {x : Note n} (hx : ∀ a ∈ s.log, InOrder a x) :
    (s.log ++ [x]).Pairwise InOrder :=
  List.pairwise_append.mpr ⟨h, List.pairwise_singleton .., fun a ha b hb => by
    rw [List.mem_singleton.mp hb]
    exact hx a ha⟩

theorem inOrder_of_quiet {a x : Note n} (hx : ∀ id p size fresh, x ≠ .assigned id p size fresh) :
    InOrder a x := fun p _ id size fresh _ => hx id p size fresh

theorem corrupted_note {x : Note n} (hx : ∀ id p data, x ≠ .received (.pieceDone id p data))
    (id : Fin n) (p : Nat) : (s.note x).Corrupted sha1 id p ↔ s.Corrupted sha1 id p := by
  refine exists_congr fun data => and_congr_left fun _ => ?_
  show _ ∈ s.log ++ [x] ↔ _
  rw [List.mem_append, List.mem_singleton]
  exact or_iff_left (Ne.symm (hx id p data))

theorem Told.note (h : s.Told sha1 first joined spoke) {x : Note n} (hx : Quiet x) :
    (s.note x).Told sha1 first joined spoke := by
  have hpiece (id : Fin n) (p : Nat) (data : Bytes) : x ≠ .received (.pieceDone id p data) := by
    rintro rfl
    exact hx
  have hcompleted (p : Nat) (r : Progress) : x ≠ .completed p r := by
    rintro rfl
    exact hx
  have hassigned (id : Fin n) (p size : Nat) (fresh : Bool) : x ≠ .assigned id p size fresh := by
    rintro rfl
    exact hx
  have hold {y : Note n} (hy : y ∈ s.log ++ [x]) (hne : x ≠ y) : y ∈ s.log :=
    (List.mem_append.mp hy).resolve_right fun hy => hne (List.mem_singleton.mp hy).symm
  refine ⟨h.roster, fun id p data hm => h.spoken id p data (hold hm (hpiece id p data)),
    fun id p hc => h.away id p ((corrupted_note hpiece id p).mp hc),
    fun id p ps hc => h.marked id p ps ((corrupted_note hpiece id p).mp hc),
    fun id p ps hps hbad => (corrupted_note hpiece id p).mpr (h.blamed id p ps hps hbad), h.kept,
    fun p r hm => h.completed p r (hold hm (hcompleted p r)),
    fun id p size fresh hm => h.new id p size fresh (hold hm (hassigned id p size fresh)),
    once_append h.once fun a _ => inOrder_of_quiet hassigned⟩

/-! ## Moves -/

theorem Told.release (h : s.Told sha1 first joined spoke) (index : Nat) :
    (s.release index).Told sha1 first joined spoke := by
  unfold Swarm.release
  split
  · exact h
  · exact h.keeps rfl rfl fun id ps hps => ⟨h.roster id ps hps, ps, hps, rfl, .inl rfl⟩

theorem Told.setPeer (h : s.Told sha1 first joined spoke) (hps : s.peers peer = some ps)
    (ps' : PeerState) (hbad : ps'.bad = ps.bad) (hpiece : ps'.piece = ps.piece ∨ ps'.piece = none) :
    (s.setPeer peer (some ps')).Told sha1 first joined spoke := by
  refine h.keeps rfl rfl fun id q hq => ?_
  by_cases hid : id = peer
  · subst hid
    rw [peers_setPeer] at hq
    cases hq
    exact ⟨h.roster id ps hps, ps, hps, hbad, hpiece⟩
  · rw [(changed_setPeer peer (some ps') s).others id hid] at hq
    exact ⟨h.roster id q hq, q, hq, rfl, .inl rfl⟩

theorem Told.tick (h : s.Told sha1 first joined spoke) (env : Env n) :
    (s.tick env).Told sha1 first joined spoke :=
  h.keeps rfl rfl fun id ps hps => ⟨h.roster id ps hps, ps, hps, rfl, .inl rfl⟩

theorem Told.flag (h : s.Told sha1 first joined spoke) (peer : Fin n) (unchoked : Bool) :
    (s.flag peer unchoked).Told sha1 first joined spoke := by
  unfold Swarm.flag
  cases hps : s.peers peer with
  | none => exact h
  | some ps => exact h.setPeer hps _ rfl (.inl rfl)

theorem Told.gain (h : s.Told sha1 first joined spoke) (hps : s.peers peer = some ps) (index : Nat) :
    (s.gain peer index ps).Told sha1 first joined spoke := by
  have hset := h.setPeer hps { ps with bf := ps.bf.set index } rfl (.inl rfl)
  exact hset.keeps rfl rfl fun id q hq => ⟨hset.roster id q hq, q, hq, rfl, .inl rfl⟩

theorem Told.clearPiece (h : s.Told sha1 first joined spoke) (env : Env n) (peer : Fin n)
    (index : Nat) : (s.clearPiece env peer index).Told sha1 first joined spoke := by
  unfold Swarm.clearPiece
  refine Told.release ?_ index
  cases hps : s.peers peer with
  | none => exact h
  | some ps =>
    dsimp only
    split
    · exact h.setPeer hps _ rfl (.inr rfl)
    · exact h

theorem Told.leave (h : s.Told sha1 first joined spoke) (peer : Fin n) (ps : PeerState) :
    (s.leave peer ps).Told sha1 first (joined \ {peer}) spoke := by
  have hgone : Told sha1 first (joined \ {peer}) spoke
      { s.setPeer peer none with picker := s.picker.removeBitfield ps.bf } := by
    refine h.keeps rfl rfl fun id q hq => ?_
    by_cases hid : id = peer
    · subst hid
      rw [peers_setPeer] at hq
      cases hq
    · have hq' : s.peers id = some q :=
        ((changed_setPeer peer none s).others id hid).symm.trans hq
      exact ⟨⟨h.roster id q hq', hid⟩, q, hq', rfl, .inl rfl⟩
  unfold Swarm.leave
  cases ps.piece with
  | some p => exact hgone.release p
  | none => exact hgone

theorem Told.join (h : s.Told sha1 first joined spoke) (env : Env n) (bf : Bitfield)
    (hnew : peer ∉ spoke) :
    (s.join env peer bf).Told sha1 first (insert peer joined) spoke := by
  have hself : (s.join env peer bf).peers peer = some ⟨bf, none, true, 0, [], env.now⟩ :=
    Function.update_self ..
  have hother {id : Fin n} (hid : id ≠ peer) : (s.join env peer bf).peers id = s.peers id :=
    Function.update_of_ne hid ..
  have hsilent {id : Fin n} {p : Nat} (hc : s.Corrupted sha1 id p) : id ≠ peer := by
    rintro rfl
    obtain ⟨data, hm, -⟩ := hc
    exact hnew (h.spoken id p data hm)
  refine ⟨fun id q hq => ?_, h.spoken, fun id p hc => ?_, fun id p q hc hq => ?_,
    fun id p q hq hbad => ?_, h.kept, h.completed, h.new, h.once⟩
  · by_cases hid : id = peer
    · exact .inl hid
    · exact .inr (h.roster id q ((hother hid).symm.trans hq))
  · rw [on, hother (hsilent hc)]
    exact h.away id p hc
  · exact h.marked id p q hc ((hother (hsilent hc)).symm.trans hq)
  · by_cases hid : id = peer
    · subst hid
      rw [hself] at hq
      cases hq
      cases hbad
    · exact h.blamed id p q ((hother hid).symm.trans hq) hbad

theorem Told.grant (h : s.Told sha1 first joined spoke) (hps : s.peers peer = some ps)
    (hchoice : s.choose ps = some (idx, fresh)) :
    (s.grant peer ps idx fresh).Told sha1 first joined spoke := by
  obtain ⟨-, hbad, hlack, -⟩ := choose_some hchoice
  have hself : (s.grant peer ps idx fresh).peers peer = some { ps with piece := some idx } :=
    Function.update_self ..
  have hother {id : Fin n} (hid : id ≠ peer) :
      (s.grant peer ps idx fresh).peers id = s.peers id := Function.update_of_ne hid ..
  have hcorrupted (id : Fin n) (p : Nat) :
      (s.grant peer ps idx fresh).Corrupted sha1 id p ↔ s.Corrupted sha1 id p :=
    corrupted_note (x := .assigned peer idx (s.storage.pieceSize idx) fresh) (by simp) id p
  have hlog : (s.grant peer ps idx fresh).log =
    s.log ++ [Note.assigned peer idx (s.storage.pieceSize idx) fresh] := rfl
  have hcases {id : Fin n} {q : PeerState} (hq : (s.grant peer ps idx fresh).peers id = some q) :
      ∃ q₀, s.peers id = some q₀ ∧ q.bad = q₀.bad := by
    by_cases hid : id = peer
    · subst hid
      rw [hself] at hq
      cases hq
      exact ⟨ps, hps, rfl⟩
    · exact ⟨q, (hother hid).symm.trans hq, rfl⟩
  refine ⟨fun id q hq => ?_, fun id p data hm => ?_, fun id p hc hon => ?_, fun id p q hc hq => ?_,
    fun id p q hq hin => ?_, h.kept, fun p x hm => ?_, fun id p size fr hm => ?_, ?_⟩
  · obtain ⟨q₀, hq₀, -⟩ := hcases hq
    exact h.roster id q₀ hq₀
  · rw [hlog, List.mem_append, List.mem_singleton] at hm
    exact h.spoken id p data (hm.resolve_right (by simp))
  · have hc' := (hcorrupted id p).mp hc
    by_cases hid : id = peer
    · subst hid
      rw [on_eq hself] at hon
      obtain rfl : idx = p := Option.some.inj hon
      rcases h.marked id idx ps hc' hps with hhas | hin
      · rw [hlack] at hhas
        cases hhas
      · exact hbad hin
    · rw [on, hother hid] at hon
      exact h.away id p hc' hon
  · obtain ⟨q₀, hq₀, hsame⟩ := hcases hq
    rw [hsame]
    exact h.marked id p q₀ ((hcorrupted id p).mp hc) hq₀
  · obtain ⟨q₀, hq₀, hsame⟩ := hcases hq
    exact (hcorrupted id p).mpr (h.blamed id p q₀ hq₀ (hsame ▸ hin))
  · rw [hlog, List.mem_append, List.mem_singleton] at hm
    exact h.completed p x (hm.resolve_right (by simp))
  · rw [hlog, List.mem_append, List.mem_singleton] at hm
    rcases hm with hm | hm
    · exact h.new id p size fr hm
    · cases hm
      by_contra hhas
      have := h.kept idx (Bool.eq_true_of_not_eq_false hhas)
      rw [hlack] at this
      cases this
  · refine once_append h.once fun a ha p x id size fr hax hassigned => ?_
    cases hassigned
    have := h.completed idx x (hax ▸ ha)
    rw [hlack] at this
    cases this

/-! ## Pieces that come in -/

theorem corrupted_received {index : Nat} {data : Bytes} {id : Fin n} {p : Nat} :
    (s.note (.received (.pieceDone peer index data))).Corrupted sha1 id p ↔
      s.Corrupted sha1 id p ∨ id = peer ∧ p = index ∧ s.storage.hashes[index]? ≠ some (sha1 data) := by
  constructor
  · rintro ⟨data', hm, hbad⟩
    rcases List.mem_append.mp hm with hm | hm
    · exact .inl ⟨data', hm, hbad⟩
    · cases List.mem_singleton.mp hm
      exact .inr ⟨rfl, rfl, hbad⟩
  · rintro (⟨data', hm, hbad⟩ | ⟨rfl, rfl, hbad⟩)
    · exact ⟨data', List.mem_append_left _ hm, hbad⟩
    · exact ⟨data, List.mem_append_right _ (.head _), hbad⟩

/-- Data from a peer that has given its piece back: it is good, or late, or the peer is marked. -/
theorem Told.received (h : s.Told sha1 first joined spoke) {index : Nat} {data : Bytes}
    (hspoke : peer ∈ spoke) (hon : s.on peer ≠ some index)
    (hmark : s.storage.hashes[index]? ≠ some (sha1 data) → ∀ ps, s.peers peer = some ps →
      s.storage.has index = true) :
    (s.note (.received (.pieceDone peer index data))).Told sha1 first joined spoke := by
  have hold {y : Note n} (hy : y ∈ s.log ++ [Note.received (.pieceDone peer index data)])
      (hne : .received (.pieceDone peer index data) ≠ y) : y ∈ s.log :=
    (List.mem_append.mp hy).resolve_right fun hy => hne (List.mem_singleton.mp hy).symm
  refine ⟨h.roster, fun id p data' hm => ?_, fun id p hc => ?_, fun id p ps hc hps => ?_,
    fun id p ps hps hbad => corrupted_received.mpr (.inl (h.blamed id p ps hps hbad)), h.kept,
    fun p x hm => h.completed p x (hold hm nofun),
    fun id p size fresh hm => h.new id p size fresh (hold hm nofun),
    once_append h.once fun a _ => inOrder_of_quiet nofun⟩
  · rcases List.mem_append.mp hm with hm | hm
    · exact h.spoken id p data' hm
    · cases List.mem_singleton.mp hm
      exact hspoke
  · rcases corrupted_received.mp hc with hc | ⟨rfl, rfl, -⟩
    · exact h.away id p hc
    · exact hon
  · rcases corrupted_received.mp hc with hc | ⟨rfl, rfl, hbad⟩
    · exact h.marked id p ps hc hps
    · exact .inl (hmark hbad ps hps)

theorem Told.punish (h : s.Told sha1 first joined spoke) {index : Nat} {data : Bytes}
    (hspoke : peer ∈ spoke) (hon : s.on peer ≠ some index) (hps : s.peers peer = some ps)
    (hbad : s.storage.hashes[index]? ≠ some (sha1 data)) :
    ((s.note (.received (.pieceDone peer index data))).punish peer index ps).Told sha1 first joined
      spoke := by
  set s' := (s.note (.received (.pieceDone peer index data))).punish peer index ps with hdef
  set ps' : PeerState := { ps with strikes := ps.strikes + 1, bad := ps.bad.insert index } with hps'
  have hself : s'.peers peer = some ps' := Function.update_self ..
  have hother {id : Fin n} (hid : id ≠ peer) : s'.peers id = s.peers id :=
    Function.update_of_ne hid ..
  have hcorrupted {id : Fin n} {p : Nat} : s'.Corrupted sha1 id p ↔
      s.Corrupted sha1 id p ∨ id = peer ∧ p = index ∧ s.storage.hashes[index]? ≠ some (sha1 data) :=
    corrupted_received
  have hlog : s'.log = s.log ++ [Note.received (.pieceDone peer index data)] := rfl
  have hin (p : Nat) : p ∈ ps'.bad ↔ p = index ∨ p ∈ ps.bad := List.mem_insert_iff
  refine ⟨fun id q hq => ?_, fun id p data' hm => ?_, fun id p hc => ?_, fun id p q hc hq => ?_,
    fun id p q hq hb => ?_, h.kept, fun p x hm => ?_, fun id p size fresh hm => ?_,
    once_append h.once fun a _ => inOrder_of_quiet (by simp)⟩
  · by_cases hid : id = peer
    · exact hid ▸ h.roster peer ps hps
    · exact h.roster id q ((hother hid).symm.trans hq)
  · rw [hlog, List.mem_append, List.mem_singleton] at hm
    rcases hm with hm | hm
    · exact h.spoken id p data' hm
    · cases hm
      exact hspoke
  · by_cases hid : id = peer
    · subst hid
      rw [on_eq hself]
      rcases hcorrupted.mp hc with hc | ⟨-, rfl, -⟩
      · rw [show ps'.piece = s.on id from (on_eq hps).symm]
        exact h.away id p hc
      · rw [show ps'.piece = s.on id from (on_eq hps).symm]
        exact hon
    · rw [on, hother hid]
      exact h.away id p ((hcorrupted.mp hc).resolve_right fun hc => hid hc.1)
  · by_cases hid : id = peer
    · subst hid
      rw [hself] at hq
      cases hq
      rcases hcorrupted.mp hc with hc | ⟨-, rfl, -⟩
      · exact (h.marked id p ps hc hps).imp_right fun hb => (hin p).mpr (.inr hb)
      · exact .inr ((hin p).mpr (.inl rfl))
    · exact h.marked id p q ((hcorrupted.mp hc).resolve_right fun hc => hid hc.1)
        ((hother hid).symm.trans hq)
  · by_cases hid : id = peer
    · subst hid
      rw [hself] at hq
      cases hq
      rcases (hin p).mp hb with rfl | hb
      · exact hcorrupted.mpr (.inr ⟨rfl, rfl, hbad⟩)
      · exact hcorrupted.mpr (.inl (h.blamed id p ps hps hb))
    · exact hcorrupted.mpr (.inl (h.blamed id p q ((hother hid).symm.trans hq) hb))
  · rw [hlog, List.mem_append, List.mem_singleton] at hm
    exact h.completed p x (hm.resolve_right (by simp))
  · rw [hlog, List.mem_append, List.mem_singleton] at hm
    exact h.new id p size fresh (hm.resolve_right (by simp))

theorem Told.complete (h : s.Told sha1 first joined spoke) (env : Env n) {index : Nat}
    {st : Storage} (hlen : s.storage.have.len = s.storage.numPieces)
    (hst : Wrote index s.storage st) :
    (s.complete env index st).Told sha1 first joined spoke := by
  have hcorrupted (id : Fin n) (p : Nat) :
      (s.complete env index st).Corrupted sha1 id p ↔ s.Corrupted sha1 id p := by
    have hnote : (s.note (.completed index (snapshot st))).Corrupted sha1 id p ↔
        s.Corrupted sha1 id p := 
        corrupted_note (x := .completed index (snapshot st)) nofun id p
    rw [← hnote, Corrupted, Corrupted]
    show (∃ data, _ ∧ st.hashes[p]? ≠ _) ↔ (∃ data, _ ∧ s.storage.hashes[p]? ≠ _)
    rw [hst.shape.hashes]
    rfl
  have hgrow (p : Nat) (hp : s.storage.has p = true) : st.has p = true :=
    (hst.has hlen p).mpr (.inl hp)
  have hlog : (s.complete env index st).log = s.log ++ [Note.completed index (snapshot st)] := rfl
  refine ⟨h.roster, fun id p data hm => ?_, fun id p hc => h.away id p ((hcorrupted id p).mp hc),
    fun id p ps hc hps => (h.marked id p ps ((hcorrupted id p).mp hc) hps).imp_left (hgrow p),
    fun id p ps hps hbad => (hcorrupted id p).mpr (h.blamed id p ps hps hbad),
    fun p hp => hgrow p (h.kept p hp), fun p x hm => ?_, fun id p size fresh hm => ?_,
    once_append h.once fun a _ => inOrder_of_quiet nofun⟩
  · rw [hlog, List.mem_append, List.mem_singleton] at hm
    exact h.spoken id p data (hm.resolve_right nofun)
  · rw [hlog, List.mem_append, List.mem_singleton] at hm
    rcases hm with hm | hm
    · exact hgrow p (h.completed p x hm)
    · cases hm
      exact (hst.has hlen index).mpr (.inr rfl)
  · rw [hlog, List.mem_append, List.mem_singleton] at hm
    exact h.new id p size fresh (hm.resolve_right nofun)

/-! ## Steps made of moves -/

/-- What holds between two events. -/
structure Inv (sha1 : Bytes → Bytes) (first : Storage) (joined spoke : Set (Fin n)) (s : Swarm n) :
    Prop where
  sound : s.Sound
  told : s.Told sha1 first joined spoke

theorem Inv.mono (h : s.Inv sha1 first joined spoke) {joined' spoke' : Set (Fin n)}
    (hj : joined ⊆ joined') (hs : spoke ⊆ spoke') : s.Inv sha1 first joined' spoke' :=
  ⟨h.sound, h.told.mono hj hs⟩

/-- Why a peer gets nothing. -/
inductive Passed (env : Env n) (peer : Fin n) (s : Swarm n) : Prop
  | complete (h : s.storage.isComplete = true)
  | full (h : s.maxBusy ≤ s.busy)
  | unknown (h : s.peers peer = none)
  | notIdle (ps : PeerState) (hps : s.peers peer = some ps)
    (h : ps.unchoked = false ∨ ps.piece.isSome = true)
  | nothing (ps : PeerState) (hps : s.peers peer = some ps) (h : s.choose ps = none)
  | closed (h : env.inbox peer = false)

/-- A peer is given a piece. -/
structure Granted (env : Env n) (peer : Fin n) (s s' : Swarm n) : Prop where
  grant : ∃ ps idx fresh, s.peers peer = some ps ∧ ps.piece = none ∧
    s.choose ps = some (idx, fresh) ∧ s' = s.grant peer ps idx fresh
  room : s.busy < s.maxBusy

theorem assign_cases (env : Env n) (peer : Fin n) (s : Swarm n) :
    s.assign env peer = s ∧ s.Passed env peer ∨ s.Granted env peer (s.assign env peer) := by
  unfold assign
  by_cases hstop : s.storage.isComplete = true ∨ s.maxBusy ≤ s.busy
  · rw [if_pos hstop]
    exact .inl ⟨rfl, hstop.elim .complete .full⟩
  rw [if_neg hstop]
  cases hps : s.peers peer with
  | none => exact .inl ⟨rfl, .unknown hps⟩
  | some ps =>
    dsimp only
    by_cases hbusy : ps.unchoked = false ∨ ps.piece.isSome = true
    · rw [if_pos hbusy]
      exact .inl ⟨rfl, .notIdle ps hps hbusy⟩
    rw [if_neg hbusy]
    cases hchoice : s.choose ps with
    | none => exact .inl ⟨rfl, .nothing ps hps hchoice⟩
    | some choice =>
      obtain ⟨idx, fresh⟩ := choice
      by_cases hopen : env.inbox peer = true
      · dsimp only
        rw [if_pos hopen]
        have hpiece : ps.piece = none := by simpa using (not_or.mp hbusy).2
        exact .inr ⟨⟨ps, idx, fresh, hps, hpiece, hchoice, rfl⟩,
          Nat.lt_of_not_le (not_or.mp hstop).2⟩
      · dsimp only
        rw [if_neg hopen]
        exact .inl ⟨rfl, .closed (Bool.eq_false_iff.mpr hopen)⟩

theorem Inv.assign (h : s.Inv sha1 first joined spoke) (env : Env n) (peer : Fin n) :
    (s.assign env peer).Inv sha1 first joined spoke := by
  rcases assign_cases env peer s with ⟨heq, -⟩ | ⟨⟨ps, idx, fresh, hps, hidle, hchoice, heq⟩, hroom⟩
  · rw [heq]
    exact h
  · rw [heq]
    exact ⟨h.sound.grant hps hidle hroom hchoice, h.told.grant hps hchoice⟩

theorem Inv.assignAll (h : s.Inv sha1 first joined spoke) (env : Env n) (ids : List (Fin n)) :
    (ids.foldl (fun s id => s.assign env id) s).Inv sha1 first joined spoke := by
  induction ids generalizing s with
  | nil => exact h
  | cons id rest ih => exact ih (h.assign env id)

theorem Inv.assignIdle (h : s.Inv sha1 first joined spoke) (env : Env n) :
    (s.assignIdle env).Inv sha1 first joined spoke := h.assignAll env _

theorem Inv.gone (h : s.Inv sha1 first joined spoke) (env : Env n) (peer : Fin n) :
    (s.gone env peer).Inv sha1 first (joined \ {peer}) spoke := by
  unfold Swarm.gone
  refine Inv.assignIdle ?_ env
  cases hps : s.peers peer with
  | some ps => exact ⟨h.sound.leave hps, h.told.leave peer ps⟩
  | none =>
    refine ⟨h.sound, { h.told with roster := fun id ps hq => ⟨h.told.roster id ps hq, ?_⟩ }⟩
    rintro rfl
    rw [hps] at hq
    cases hq

theorem on_clearPiece (env : Env n) (peer : Fin n) (index : Nat) (s : Swarm n) :
    (s.clearPiece env peer index).on peer ≠ some index := by
  have hrelease (t : Swarm n) : (t.release index).on peer = t.on peer := by
    unfold release
    split <;> rfl
  unfold clearPiece
  rw [hrelease]
  cases hps : s.peers peer with
  | none =>
    rw [on, hps]
    simp
  | some ps =>
    dsimp only
    split
    · rw [on_eq (peers_setPeer ..)]
      simp
    · rwa [on_eq hps]

/-- All that `writePiece` can do. -/
inductive Writes (sha1 : Bytes → Bytes) (index : Nat) (data : Bytes) (st : Storage) :
    Outcome Storage Bool → Prop
  | failed (e : Error) (st' : Storage) (hbits : st'.have = st.have)
    (hshape : Storage.SameShape st st') : Writes sha1 index data st (.error e st')
  | refused (hbad : st.hashes[index]? ≠ some (sha1 data)) : Writes sha1 index data st (.ok false st)
  | wrote (st' : Storage) (hwrote : Wrote index st st')
    (hgood : st.hashes[index]? = some (sha1 data)) : Writes sha1 index data st (.ok true st')

theorem writes_writePiece (sha1 : Bytes → Bytes) (faults : Faults) (index : Nat) (data : Bytes)
    (st : Storage) : Writes sha1 index data st (st.writePiece sha1 faults index data) := by
  unfold Storage.writePiece
  by_cases hrange : st.numPieces ≤ index
  · rw [if_pos hrange]
    exact .failed _ st rfl ⟨rfl, rfl, rfl, rfl⟩
  rw [if_neg hrange]
  by_cases hlength : data.length ≠ st.pieceSize index
  · rw [if_pos hlength]
    exact .failed _ st rfl ⟨rfl, rfl, rfl, rfl⟩
  rw [if_neg hlength]
  by_cases hhash : some (sha1 data) ≠ st.hashes[index]?
  · rw [if_pos hhash]
    exact .refused (Ne.symm hhash)
  rw [if_neg hhash]
  cases writeFiles faults (st.pieceLength * index) data st.files st.disk with
  | ok u disk =>
    exact .wrote _ ⟨rfl, ⟨rfl, rfl, rfl, rfl⟩, Nat.lt_of_not_le hrange⟩ (not_not.mp hhash).symm
  | error e disk => exact .failed e _ rfl ⟨rfl, rfl, rfl, rfl⟩

/-! ## The claim on one state -/

/-- The books are right. -/
structure Bookkeeping (sha1 : Bytes → Bytes) (first : Storage) (s : Swarm n) : Prop where
  assigned : ∀ p, p ∈ s.assigned ↔ (∃ id, s.on id = some p) ∧ s.storage.has p = false
  works : ∀ id ps p, s.peers id = some ps → ps.piece = some p →
    ps.bf.has p = true ∧ ¬s.Corrupted sha1 id p
  availability : ∀ i, i < s.storage.numPieces → s.picker.availability[i]? = some (s.advertisers i)
  busy : s.busy ≤ s.maxBusy
  new : ∀ id p size fresh, .assigned id p size fresh ∈ s.log → first.has p = false
  once : s.log.Pairwise InOrder

theorem Inv.bookkeeping (h : s.Inv sha1 first joined spoke) : s.Bookkeeping sha1 first where
  assigned p := ⟨fun hp => ⟨h.sound.owned p hp, h.sound.lacking p hp⟩, fun ⟨⟨id, hid⟩, hlack⟩ =>
    h.sound.working id p hid hlack⟩
  works id ps p hps hpiece := ⟨h.sound.useful id ps p hps hpiece, fun hc =>
    h.told.away id p hc ((on_eq hps).trans hpiece)⟩
  availability i hi := by rw [h.sound.counts i, if_pos hi]
  busy := h.sound.room
  new := h.told.new
  once := h.told.once

/-- The disk failed when a piece was written: the books are right all the same. -/
theorem Inv.bookkeeping_failed (h : s.Inv sha1 first joined spoke) {index : Nat} {data : Bytes}
    (hon : s.on peer ≠ some index) {st : Storage} (hbits : st.have = s.storage.have)
    (hshape : Storage.SameShape s.storage st) :
    Bookkeeping sha1 first
      { s.note (.received (.pieceDone peer index data)) with storage := st } := by
  have hhas (p : Nat) : st.has p = s.storage.has p := by rw [Storage.has, hbits, Storage.has]
  have hnum : st.numPieces = s.storage.numPieces := congrArg List.length hshape.hashes
  obtain ⟨hassigned, hworks, havailability, hbusy, hnew, honce⟩ := h.bookkeeping
  refine ⟨fun p => ?_, fun id ps p hps hpiece => ?_, fun i hi => ?_, hbusy,
    fun id p size fresh hm => ?_, once_append honce fun a _ => inOrder_of_quiet (by simp)⟩
  · show _ ↔ _ ∧ st.has p = false
    rw [hhas]
    exact hassigned p
  · obtain ⟨hbf, hclean⟩ := hworks id ps p hps hpiece
    refine ⟨hbf, ?_⟩
    rintro ⟨data', hm, hbad⟩
    have hbad' : s.storage.hashes[p]? ≠ some (sha1 data') := hshape.hashes ▸ hbad
    rcases List.mem_append.mp hm with hm | hm
    · exact hclean ⟨data', hm, hbad'⟩
    · cases List.mem_singleton.mp hm
      exact hon ((on_eq hps).trans hpiece)
  · exact havailability i (hnum ▸ hi)
  · rcases List.mem_append.mp hm with hm | hm
    · exact hnew id p size fresh hm
    · cases List.mem_singleton.mp hm

end Swarm

end Rsurl.Bittorrent
