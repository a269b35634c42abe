import Rsurl.Bittorrent.Swarm
import Rsurl.Bittorrent.Verified

/-!
# The moves of the swarm

Every event is handled in a few moves: a peer joins, has more, is flagged, gives its piece back,
leaves or is punished, a piece is complete, a piece is granted. What holds of the books after each of
them holds in every state.
-/

namespace Rsurl.Bittorrent

open Library

/-! ## What is picked -/

theorem PeerState.has_usable (ps : PeerState) (i : Nat) :
    ps.usable.has i = true ↔ ps.bf.has i = true ∧ i ∉ ps.bad := by
  unfold PeerState.usable
  generalize ps.bad = bad
  induction bad generalizing ps with
  | nil => simp
  | cons b rest ih =>
    have hstep := ih { ps with bf := ps.bf.unset b }
    rw [List.foldl_cons, hstep, Bitfield.has_unset, Bool.and_eq_true, List.mem_cons, not_or]
    simp [and_assoc]

theorem endgamePick_mem {st : Storage} {bf : Bitfield} {inFlight assigned : List Nat} {idx : Nat}
    (h : endgamePick st bf inFlight assigned = some idx) :
    idx ∈ assigned ∧ bf.has idx = true ∧ st.has idx = false := by
  have hmem : ∀ i, endgamePick st bf inFlight assigned = some i →
      i ∈ assigned.filter fun idx => bf.has idx && !st.has idx := by
    unfold endgamePick
    refine List.foldlRecOn (motive := fun best => ∀ i, best = some i → i ∈ assigned.filter _) _ _
      (by simp) fun best ih x hx i hbest => ?_
    cases best with
    | none => exact Option.some.inj hbest ▸ hx
    | some b =>
      simp only at hbest
      split at hbest
      · exact Option.some.inj hbest ▸ hx
      · exact ih i hbest
  obtain ⟨hin, hgood⟩ := List.mem_filter.mp (hmem idx h)
  rw [Bool.and_eq_true, Bool.not_eq_true'] at hgood
  exact ⟨hin, hgood⟩

namespace Swarm

variable {n : Nat} {s s' : Swarm n} {peer id : Fin n} {ps : PeerState} {idx p : Nat} {fresh : Bool}

/-- What is given to a peer is useful. -/
theorem choose_some (h : s.choose ps = some (idx, fresh)) :
    ps.bf.has idx = true ∧ idx ∉ ps.bad ∧ s.storage.has idx = false ∧
      (fresh = true → idx ∉ s.assigned) ∧ (fresh = false → idx ∈ s.assigned) := by
  unfold choose at h
  split at h
  · rename_i i hpick
    cases h
    obtain ⟨-, ⟨hours, hpeer, hexclude⟩, -⟩ := Picker.pick_some hpick
    obtain ⟨hbf, hbad⟩ := (ps.has_usable _).mp hpeer
    exact ⟨hbf, hbad, hours, fun _ hin => hexclude (List.mem_toFinset.mpr hin), nofun⟩
  · split at h
    · obtain ⟨i, hpick, heq⟩ := Option.map_eq_some_iff.mp h
      cases heq
      obtain ⟨hin, hpeer, hours⟩ := endgamePick_mem hpick
      obtain ⟨hbf, hbad⟩ := (ps.has_usable _).mp hpeer
      exact ⟨hbf, hbad, hours, nofun, fun _ => hin⟩
    · cases h

/-- A piece that nobody is on is given before one that somebody is on. -/
theorem choose_fresh (h : ∀ idx, s.choose ps ≠ some (idx, true))
    (hp : p < s.picker.availability.length) (hbf : ps.bf.has p = true) (hbad : p ∉ ps.bad)
    (hours : s.storage.has p = false) : p ∈ s.assigned := by
  unfold choose at h
  split at h
  · rename_i i hpick
    exact absurd rfl (h i)
  · rename_i hpick
    by_contra hin
    exact Picker.pick_none hpick hp ⟨hours, (ps.has_usable p).mpr ⟨hbf, hbad⟩, fun hmem =>
      hin (List.mem_toFinset.mp hmem)⟩

/-! ## One peer changes -/

theorem on_eq (h : s.peers peer = some ps) : s.on peer = ps.piece := by
  rw [on, h]
  rfl

/-- The peers that have piece `i`. -/
def advertisers (s : Swarm n) (i : Nat) : Nat :=
  tally fun id => (s.peers id).any fun ps => ps.bf.has i

/-- The peers that have joined. -/
def crowd (s : Swarm n) : Nat := tally fun id => (s.peers id).isSome

theorem advertisers_le (s : Swarm n) (i : Nat) : s.advertisers i ≤ s.crowd :=
  tally_mono fun id h => by
    cases hps : s.peers id with
    | none =>
      simp only [hps] at h
      cases h
    | some ps => rfl

/-- The books, but for pieces in `assigned` that nobody works on. -/
structure Books (s : Swarm n) : Prop where
  storage : s.storage.have.len = s.storage.numPieces
  pieces : ∀ id ps, s.peers id = some ps → ps.bf.len = s.storage.numPieces
  counts : ∀ i, s.picker.availability[i]? =
    if i < s.storage.numPieces then some (s.advertisers i) else none
  working : ∀ id p, s.on id = some p → s.storage.has p = false → p ∈ s.assigned
  lacking : ∀ p, p ∈ s.assigned → s.storage.has p = false
  useful : ∀ id ps p, s.peers id = some ps → ps.piece = some p → ps.bf.has p = true
  room : s.busy ≤ s.maxBusy

structure Sound (s : Swarm n) : Prop extends Books s where
  owned : ∀ p, p ∈ s.assigned → ∃ id, s.on id = some p

/-- Only the peer table has changed, and there only one peer. -/
structure Changed (peer : Fin n) (s s' : Swarm n) : Prop where
  others : ∀ id, id ≠ peer → s'.peers id = s.peers id
  storage : s'.storage = s.storage
  maxBusy : s'.maxBusy = s.maxBusy

theorem Changed.on (h : Changed peer s s') (hid : id ≠ peer) : s'.on id = s.on id := by
  rw [Swarm.on, Swarm.on, h.others id hid]

theorem Changed.on_all (h : Changed peer s s') (hpeer : s'.on peer = s.on peer) (id : Fin n) :
    s'.on id = s.on id := by
  by_cases hid : id = peer
  · rw [hid, hpeer]
  · exact h.on hid

theorem Changed.advertisers (h : Changed peer s s') {i : Nat}
    (hpeer : ((s'.peers peer).any fun ps => ps.bf.has i) = (s.peers peer).any fun ps => ps.bf.has i) :
    s'.advertisers i = s.advertisers i :=
  tally_same peer (fun id hid => by rw [h.others id hid]) hpeer

theorem Changed.tally_advertisers (h : Changed peer s s') (i : Nat) :
    s'.advertisers i + ((s.peers peer).any fun ps => ps.bf.has i).toNat =
      s.advertisers i + ((s'.peers peer).any fun ps => ps.bf.has i).toNat := by
  have hoff (id : Fin n) (hid : id ≠ peer) : ((s'.peers id).any fun ps => ps.bf.has i) =
      (s.peers id).any fun ps => ps.bf.has i := by
    rw [h.others id hid]
  exact tally_of_eq_off peer hoff

theorem Changed.busy (h : Changed peer s s') (hpeer : s'.on peer = s.on peer) : s'.busy = s.busy := by
  unfold Swarm.busy
  congr 1
  funext id
  rw [h.on_all hpeer id]

theorem Books.length (hs : s.Books) : s.picker.availability.length = s.storage.numPieces := by
  have hiff (i : Nat) : s.picker.availability.length ≤ i ↔ s.storage.numPieces ≤ i := by
    rw [← List.getElem?_eq_none_iff, hs.counts i]
    split
    · exact iff_of_false nofun (by omega)
    · exact iff_of_true rfl (by omega)
  exact Nat.le_antisymm ((hiff _).mpr le_rfl) ((hiff _).mp le_rfl)

/-! ## What each move keeps -/

theorem Sound.note (h : s.Sound) (x : Note n) : (s.note x).Sound :=
  ⟨⟨h.storage, h.pieces, h.counts, h.working, h.lacking, h.useful, h.room⟩, h.owned⟩

theorem Sound.tick (h : s.Sound) (env : Env n) : (s.tick env).Sound :=
  ⟨⟨h.storage, h.pieces, h.counts, h.working, h.lacking, h.useful, h.room⟩, h.owned⟩

theorem changed_setPeer (peer : Fin n) (x : Option PeerState) (s : Swarm n) :
    Changed peer s (s.setPeer peer x) :=
  ⟨fun _ hid => Function.update_of_ne hid .., rfl, rfl⟩

theorem peers_setPeer (peer : Fin n) (x : Option PeerState) (s : Swarm n) :
    (s.setPeer peer x).peers peer = x := Function.update_self ..

/-- A peer that keeps its piece, and has at least what it had. -/
theorem Sound.keeps (h : s.Sound) (hc : Changed peer s s') (hassigned : s'.assigned = s.assigned)
    (hps : s.peers peer = some ps) {ps' : PeerState} (hps' : s'.peers peer = some ps')
    (hpiece : ps'.piece = ps.piece) (hlen : ps'.bf.len = ps.bf.len)
    (hgrow : ∀ i, ps.bf.has i = true → ps'.bf.has i = true)
    (hcounts : ∀ i, s'.picker.availability[i]? =
      if i < s.storage.numPieces then some (s'.advertisers i) else none) : s'.Sound := by
  have hon : s'.on peer = s.on peer := by
    rw [on_eq hps', on_eq hps, hpiece]
  have hon' := hc.on_all hon
  have hcases (id : Fin n) (q : PeerState) (hq : s'.peers id = some q) :
      ∃ q₀, s.peers id = some q₀ ∧ q.bf.len = q₀.bf.len ∧ q.piece = q₀.piece ∧
        ∀ i, q₀.bf.has i = true → q.bf.has i = true := by
    by_cases hid : id = peer
    · subst hid
      rw [hps'] at hq
      cases hq
      exact ⟨ps, hps, hlen, hpiece, hgrow⟩
    · rw [hc.others id hid] at hq
      exact ⟨q, hq, rfl, rfl, fun _ hi => hi⟩
  refine ⟨⟨?_, fun id q hq => ?_, ?_, fun id p hp hlack => ?_, fun p hp => ?_,
    fun id q p hq hp => ?_, ?_⟩, fun p hp => ?_⟩
  · rw [hc.storage]
    exact h.storage
  · obtain ⟨q₀, hq₀, hb, -⟩ := hcases id q hq
    rw [hb, hc.storage]
    exact h.pieces id q₀ hq₀
  · rw [hc.storage]
    exact hcounts
  · rw [hon'] at hp
    rw [hc.storage] at hlack
    rw [hassigned]
    exact h.working id p hp hlack
  · rw [hassigned] at hp
    rw [hc.storage]
    exact h.lacking p hp
  · obtain ⟨q₀, hq₀, -, hp₀, hb⟩ := hcases id q hq
    exact hb p (h.useful id q₀ p hq₀ (hp₀ ▸ hp))
  · rw [hc.busy hon, hc.maxBusy]
    exact h.room
  · rw [hassigned] at hp
    obtain ⟨id, hid⟩ := h.owned p hp
    exact ⟨id, (hon' id).trans hid⟩

theorem Sound.setPeer (h : s.Sound) (hps : s.peers peer = some ps) (ps' : PeerState)
    (hbf : ps'.bf = ps.bf) (hpiece : ps'.piece = ps.piece) :
    (s.setPeer peer (some ps')).Sound := by
  have hc := changed_setPeer peer (some ps') s
  have hself := peers_setPeer peer (some ps') s
  refine h.keeps hc rfl hps hself hpiece (congrArg _ hbf) (fun i hi => hbf ▸ hi) fun i => ?_
  rw [hc.advertisers (by rw [hself, hps, Option.any_some, Option.any_some, hbf])]
  exact h.counts i

/-- A peer that works on nothing. -/
theorem Books.idle (h : s.Books) (hc : Changed peer s s') (hassigned : s'.assigned = s.assigned)
    (hpeer : ∀ q, s'.peers peer = some q → q.piece = none ∧ q.bf.len = s.storage.numPieces)
    (hcounts : ∀ i, s'.picker.availability[i]? =
      if i < s.storage.numPieces then some (s'.advertisers i) else none) : s'.Books := by
  have hon : s'.on peer = none := by
    cases hq : s'.peers peer with
    | none =>
      rw [Swarm.on, hq]
      rfl
    | some q => rw [on_eq hq, (hpeer q hq).1]
  have hother {id : Fin n} {p : Nat} (hp : s'.on id = some p) : id ≠ peer := by
    rintro rfl
    rw [hon] at hp
    cases hp
  refine ⟨?_, fun id q hq => ?_, ?_, fun id p hp hlack => ?_, fun p hp => ?_,
    fun id q p hq hp => ?_, ?_⟩
  · rw [hc.storage]
    exact h.storage
  · rw [hc.storage]
    by_cases hid : id = peer
    · exact (hpeer q (hid ▸ hq)).2
    · exact h.pieces id q ((hc.others id hid) ▸ hq)
  · rw [hc.storage]
    exact hcounts
  · rw [hc.on (hother hp)] at hp
    rw [hc.storage] at hlack
    rw [hassigned]
    exact h.working id p hp hlack
  · rw [hassigned] at hp
    rw [hc.storage]
    exact h.lacking p hp
  · have hid : id ≠ peer := hother ((on_eq hq).trans hp)
    exact h.useful id q p ((hc.others id hid) ▸ hq) hp
  · rw [hc.maxBusy]
    refine (tally_mono fun id hid => ?_).trans h.room
    obtain ⟨p, hp⟩ := Option.isSome_iff_exists.mp hid
    rwa [hc.on (hother hp)] at hid

theorem Sound.flag (h : s.Sound) (peer : Fin n) (unchoked : Bool) : (s.flag peer unchoked).Sound := by
  unfold Swarm.flag
  cases hps : s.peers peer with
  | none => exact h
  | some ps => exact h.setPeer hps _ rfl rfl

theorem Sound.punish (h : s.Sound) (hps : s.peers peer = some ps) (index : Nat) :
    (s.punish peer index ps).Sound := h.setPeer hps _ rfl rfl

/-- Once a piece is released, every piece in `assigned` has somebody on it. -/
theorem Books.release (h : s.Books) {index : Nat}
    (howned : ∀ p, p ∈ s.assigned → p ≠ index → ∃ id, s.on id = some p) :
    (s.release index).Sound := by
  unfold Swarm.release
  by_cases hbusy : ∃ id, s.on id = some index
  · rw [if_pos hbusy]
    refine ⟨h, fun p hp => ?_⟩
    by_cases hpi : p = index
    · exact hpi ▸ hbusy
    · exact howned p hp hpi
  · rw [if_neg hbusy]
    refine ⟨⟨h.storage, h.pieces, h.counts, fun id p hp hlack => ?_, fun p hp => ?_, h.useful,
      h.room⟩, fun p hp => ?_⟩
    · have hne : p ≠ index := by
        rintro rfl
        exact hbusy ⟨id, hp⟩
      exact List.mem_filter.mpr ⟨h.working id p hp hlack, by simpa using hne⟩
    · exact h.lacking p (List.mem_filter.mp hp).1
    · obtain ⟨hin, hne⟩ := List.mem_filter.mp hp
      exact howned p hin (by simpa using hne)

theorem Sound.clearPiece (h : s.Sound) (env : Env n) (peer : Fin n) (index : Nat) :
    (s.clearPiece env peer index).Sound := by
  have hkept : (s.release index).Sound := h.toBooks.release fun p hp _ => h.owned p hp
  unfold Swarm.clearPiece
  cases hps : s.peers peer with
  | none => exact hkept
  | some ps =>
    dsimp only
    split
    · rename_i hpiece
      have hc := changed_setPeer peer (some { ps with piece := none, idleSince := env.now }) s
      have hself := peers_setPeer peer (some { ps with piece := none, idleSince := env.now }) s
      refine (h.toBooks.idle hc rfl (fun q hq => ?_) fun i => ?_).release fun p hp hne => ?_
      · rw [hself] at hq
        cases hq
        exact ⟨rfl, h.pieces peer ps hps⟩
      · rw [hc.advertisers (by rw [hself, hps]; rfl)]
        exact h.counts i
      · obtain ⟨id, hid⟩ := h.owned p hp
        refine ⟨id, (hc.on ?_).trans hid⟩
        rintro rfl
        rw [on_eq hps, hpiece] at hid
        exact hne (Option.some.inj hid).symm
    · exact hkept

theorem Sound.leave (h : s.Sound) (hps : s.peers peer = some ps) : (s.leave peer ps).Sound := by
  set s' : Swarm n := { s.setPeer peer none with picker := s.picker.removeBitfield ps.bf } with hdef
  have hc : Changed peer s s' := ⟨fun _ hid => Function.update_of_ne hid .., rfl, rfl⟩
  have hself : s'.peers peer = none := Function.update_self ..
  have hbooks : s'.Books := by
    refine h.toBooks.idle hc rfl (fun q hq => ?_) fun i => ?_
    · rw [hself] at hq
      cases hq
    · have htally : s'.advertisers i + (ps.bf.has i).toNat = s.advertisers i := by
        have := hc.tally_advertisers i
        rw [hself, hps] at this
        exact this
      have hcount : s'.picker.availability[i]? = _ := Picker.availability_removeBitfield ..
      rw [hcount, h.counts i]
      by_cases hi : i < s.storage.numPieces
      · rw [if_pos hi, if_pos hi, Option.map_some, Option.some.injEq]
        cases hhas : ps.bf.has i <;> rw [hhas] at htally
        · exact htally.symm
        · rw [if_pos rfl, ← htally]
          rfl
      · rw [if_neg hi, if_neg hi]
        rfl
  have howned (p : Nat) (hp : p ∈ s.assigned) (hne : ps.piece ≠ some p) : ∃ id, s'.on id = some p := by
    obtain ⟨id, hid⟩ := h.owned p hp
    refine ⟨id, (hc.on ?_).trans hid⟩
    rintro rfl
    exact hne ((on_eq hps).symm.trans hid)
  unfold Swarm.leave
  cases hpiece : ps.piece with
  | some p =>
    refine hbooks.release fun p' hp' hne => howned p' hp' ?_
    rw [hpiece]
    exact fun heq => hne (Option.some.inj heq).symm
  | none => exact ⟨hbooks, fun p hp => howned p hp (by rw [hpiece]; nofun)⟩

/-- A peer may join while there is room in the counts. -/
theorem Sound.join (h : s.Sound) (env : Env n) {bf : Bitfield} (hfree : s.peers peer = none)
    (hlen : bf.len = s.storage.numPieces) (hcrowd : s.crowd < 2 ^ 32 - 1) :
    (s.join env peer bf).Sound := by
  have hc : Changed peer s (s.join env peer bf) := ⟨fun _ hid => Function.update_of_ne hid .., rfl, rfl⟩
  have hself : (s.join env peer bf).peers peer = some ⟨bf, none, true, 0, [], env.now⟩ :=
    Function.update_self ..
  refine ⟨h.toBooks.idle hc rfl (fun q hq => ?_) fun i => ?_, fun p hp => ?_⟩
  · rw [hself] at hq
    cases hq
    exact ⟨rfl, hlen⟩
  · have htally : (s.join env peer bf).advertisers i = s.advertisers i + (bf.has i).toNat := by
      have := hc.tally_advertisers i
      rw [hself, hfree] at this
      exact this
    have hcount : (s.join env peer bf).picker.availability[i]? = _ :=
      Picker.availability_addBitfield ..
    have hbound := s.advertisers_le i
    rw [hcount, h.counts i, htally]
    by_cases hi : i < s.storage.numPieces
    · rw [if_pos hi, if_pos hi, Option.map_some, Option.some.injEq]
      cases bf.has i
      · rfl
      · rw [if_pos rfl, Nat.mod_eq_of_lt (by omega)]
        rfl
    · rw [if_neg hi, if_neg hi]
      rfl
  · obtain ⟨id, hid⟩ := h.owned p hp
    refine ⟨id, (hc.on ?_).trans hid⟩
    rintro rfl
    rw [on, hfree] at hid
    cases hid

theorem Sound.gain (h : s.Sound) {index : Nat} (hps : s.peers peer = some ps)
    (hnew : index < ps.bf.len ∧ ps.bf.has index = false) (hcrowd : s.crowd < 2 ^ 32 - 1) :
    (s.gain peer index ps).Sound := by
  have hc : Changed peer s (s.gain peer index ps) :=
    ⟨fun _ hid => Function.update_of_ne hid .., rfl, rfl⟩
  have hself : (s.gain peer index ps).peers peer = some { ps with bf := ps.bf.set index } :=
    Function.update_self ..
  have hset (i : Nat) : (ps.bf.set index).has i = (ps.bf.has i || decide (i = index)) := by
    rw [Bitfield.has_set, decide_eq_true hnew.1, Bool.and_true]
  refine h.keeps hc rfl hps hself rfl (Bitfield.len_set ..) (fun i hi => ?_) fun i => ?_
  · rw [hset, hi]
    rfl
  · have htally : (s.gain peer index ps).advertisers i + (ps.bf.has i).toNat =
        s.advertisers i + (ps.bf.has i || decide (i = index)).toNat := by
      have := hc.tally_advertisers i
      rw [hself, hps, Option.any_some, Option.any_some, hset] at this
      exact this
    have hcount : (s.gain peer index ps).picker.availability[i]? = _ :=
      Picker.availability_addHave ..
    have hbound := s.advertisers_le i
    rw [hcount, h.counts i]
    by_cases hi : i < s.storage.numPieces
    · rw [if_pos hi, if_pos hi, Option.map_some, Option.some.injEq]
      by_cases hii : index = i
      · subst hii
        rw [if_pos rfl, Nat.mod_eq_of_lt (by omega)]
        rw [hnew.2] at htally
        simpa using htally.symm
      · rw [if_neg hii]
        have hne : decide (i = index) = false := decide_eq_false (Ne.symm hii)
        rw [hne, Bool.or_false] at htally
        omega
    · rw [if_neg hi, if_neg hi]
      rfl

theorem Sound.grant (h : s.Sound) (hps : s.peers peer = some ps) (hidle : ps.piece = none)
    (hroom : s.busy < s.maxBusy) (hchoice : s.choose ps = some (idx, fresh)) :
    (s.grant peer ps idx fresh).Sound := by
  obtain ⟨hbf, -, hlack, hfresh, hdup⟩ := choose_some hchoice
  have hc : Changed peer s (s.grant peer ps idx fresh) :=
    ⟨fun _ hid => Function.update_of_ne hid .., rfl, rfl⟩
  have hself : (s.grant peer ps idx fresh).peers peer = some { ps with piece := some idx } :=
    Function.update_self ..
  have hmem (p : Nat) : p ∈ (s.grant peer ps idx fresh).assigned ↔ p ∈ s.assigned ∨ p = idx := by
    show p ∈ (if fresh then s.assigned.insert idx else s.assigned) ↔ _
    cases fresh with
    | true => rw [if_pos rfl, List.mem_insert_iff, or_comm]
    | false =>
      rw [if_neg nofun]
      exact ⟨.inl, fun hp => hp.elim id fun hp => hp ▸ hdup rfl⟩
  have hcases {id : Fin n} {p : Nat} (hp : (s.grant peer ps idx fresh).on id = some p) :
      id = peer ∧ p = idx ∨ id ≠ peer ∧ s.on id = some p := by
    by_cases hid : id = peer
    · subst hid
      rw [on_eq hself] at hp
      exact .inl ⟨rfl, (Option.some.inj hp).symm⟩
    · exact .inr ⟨hid, (hc.on hid).symm.trans hp⟩
  refine ⟨⟨h.storage, fun id q hq => ?_, fun i => ?_, fun id p hp hlack' => ?_, fun p hp => ?_,
    fun id q p hq hp => ?_, ?_⟩, fun p hp => ?_⟩
  · by_cases hid : id = peer
    · subst hid
      rw [hself] at hq
      cases hq
      exact h.pieces id ps hps
    · exact h.pieces id q ((hc.others id hid) ▸ hq)
  · rw [hc.advertisers (by rw [hself, hps]; rfl)]
    exact h.counts i
  · rcases hcases hp with ⟨-, rfl⟩ | ⟨-, hp⟩
    · exact (hmem p).mpr (.inr rfl)
    · exact (hmem p).mpr (.inl (h.working id p hp hlack'))
  · rcases (hmem p).mp hp with hp | rfl
    · exact h.lacking p hp
    · exact hlack
  · rcases hcases ((on_eq hq).trans hp) with ⟨rfl, rfl⟩ | ⟨hid, -⟩
    · rw [hself] at hq
      cases hq
      exact hbf
    · exact h.useful id q p ((hc.others id hid) ▸ hq) hp
  · have hsucc : (s.grant peer ps idx fresh).busy = s.busy + 1 :=
      tally_succ peer (fun id hid => by rw [hc.on hid]) (by rw [on_eq hps, hidle]; rfl)
        (by rw [on_eq hself]; rfl)
    rw [hsucc]
    exact hroom
  · rcases (hmem p).mp hp with hp | rfl
    · obtain ⟨id, hid⟩ := h.owned p hp
      refine ⟨id, (hc.on ?_).trans hid⟩
      rintro rfl
      rw [on_eq hps, hidle] at hid
      cases hid
    · exact ⟨peer, on_eq hself⟩

/-- A piece was written: its bit is set, and nothing else has changed but the disk. -/
structure Wrote (index : Nat) (st st' : Storage) : Prop where
  bit : st'.have = st.have.set index
  shape : Storage.SameShape st st'
  range : index < st.numPieces

theorem Wrote.has {st st' : Storage} {index : Nat} (h : Wrote index st st')
    (hlen : st.have.len = st.numPieces) (p : Nat) :
    st'.has p = true ↔ st.has p = true ∨ p = index := by
  have hlt : index < st.have.len := hlen ▸ h.range
  rw [Storage.has, h.bit, Bitfield.has_set, decide_eq_true hlt, Bool.and_true, Bool.or_eq_true,
    decide_eq_true_eq]
  rfl

theorem Sound.complete (h : s.Sound) (env : Env n) {index : Nat} {st : Storage}
    (hst : Wrote index s.storage st) : (s.complete env index st).Sound := by
  have hnum : st.numPieces = s.storage.numPieces := congrArg List.length hst.shape.hashes
  have hlack (p : Nat) : st.has p = false ↔ s.storage.has p = false ∧ p ≠ index := by
    rw [← Bool.not_eq_true, hst.has h.storage, not_or, Bool.not_eq_true]
  have hmem (p : Nat) : p ∈ (s.complete env index st).assigned ↔ p ∈ s.assigned ∧ p ≠ index := by
    show p ∈ s.assigned.filter (· ≠ index) ↔ _
    rw [List.mem_filter, decide_eq_true_eq]
  refine ⟨⟨?_, fun id q hq => (h.pieces id q hq).trans hnum.symm, fun i => ?_,
    fun id p hp hlack' => ?_, fun p hp => ?_, h.useful, h.room⟩, fun p hp => ?_⟩
  · show st.have.len = st.numPieces
    rw [hst.bit, Bitfield.len_set, hnum]
    exact h.storage
  · show s.picker.availability[i]? = if i < st.numPieces then some (s.advertisers i) else none
    rw [hnum]
    exact h.counts i
  · obtain ⟨hlack', hne⟩ := (hlack p).mp hlack'
    exact (hmem p).mpr ⟨h.working id p hp hlack', hne⟩
  · obtain ⟨hp, hne⟩ := (hmem p).mp hp
    exact (hlack p).mpr ⟨h.lacking p hp, hne⟩
  · exact h.owned p ((hmem p).mp hp).1

end Swarm

end Rsurl.Bittorrent
