import Rsurl.Bittorrent.Engine

/-!
# Nobody idles while there is work

A peer whose inbox has a reader is idle only when there is nothing for it: the download is complete,
enough peers are busy, or each piece that it has is here, in flight, or one that it has corrupted. An
event changes this for one peer, which is then looked at, or for all, and then all are looked at.
-/

namespace Rsurl.Bittorrent

namespace Swarm

variable {n : Nat} {sha1 : Bytes → Bytes} {first : Storage} {s s' : Swarm n} {peer id : Fin n}
  {ps : PeerState} {joined spoke but : Set (Fin n)} {inbox : Fin n → Bool} {env : Env n}

/-- The peer has nothing that should be fetched. -/
def Content (s : Swarm n) (ps : PeerState) : Prop :=
  ∀ p, ps.bf.has p = true → s.storage.has p = true ∨ p ∈ s.assigned ∨ p ∈ ps.bad

/-- The peer is at work, or choked, or deaf, or content. -/
def Served (inbox : Fin n → Bool) (s : Swarm n) (id : Fin n) : Prop :=
  inbox id = true → ∀ ps, s.peers id = some ps → ps.unchoked = true → ps.piece = none → s.Content ps

/-- No peer idles, but for those in `but` that have not been looked at. -/
def Settled (inbox : Fin n → Bool) (but : Set (Fin n)) (s : Swarm n) : Prop :=
  s.storage.isComplete = true ∨ s.maxBusy ≤ s.busy ∨ ∀ id, id ∉ but → s.Served inbox id

theorem Settled.mono (h : s.Settled inbox but) {but' : Set (Fin n)} (hbut : but ⊆ but') :
    s.Settled inbox but' :=
  h.imp_right (Or.imp_right fun hrest id hid => hrest id fun hin => hid (hbut hin))

/-! ## Looking at a peer -/

/-- A peer that gets nothing has nothing to give. -/
theorem content_of_choose (hs : s.Books) (hps : s.peers peer = some ps) (h : s.choose ps = none) :
    s.Content ps := by
  intro p hp
  by_contra hleft
  obtain ⟨hours, hrest⟩ := not_or.mp hleft
  obtain ⟨hin, hbad⟩ := not_or.mp hrest
  have hlt : p < s.picker.availability.length := by
    rw [hs.length, ← hs.pieces peer ps hps]
    exact ps.bf.lt_of_has p hp
  refine hin (choose_fresh (fun idx => ?_) hlt hp hbad (Bool.eq_false_iff.mpr hours))
  rw [h]
  exact nofun

theorem Content.grant (h : s.Content ps) (peer : Fin n) (ps' : PeerState) (idx : Nat) (fresh : Bool) :
    (s.grant peer ps' idx fresh).Content ps := by
  intro p hp
  refine (h p hp).imp_right (Or.imp_left fun hin => ?_)
  cases fresh with
  | true => exact List.mem_insert_of_mem hin
  | false => exact hin

/-- The peer that was passed over, unless nobody gets anything. -/
theorem Passed.served (h : s.Passed env peer) (hs : s.Books) :
    s.storage.isComplete = true ∨ s.maxBusy ≤ s.busy ∨ s.Served env.inbox peer := by
  cases h with
  | complete h => exact .inl h
  | full h => exact .inr (.inl h)
  | unknown h =>
    refine .inr (.inr fun _ ps hps => ?_)
    rw [h] at hps
    cases hps
  | notIdle ps hps h =>
    refine .inr (.inr fun _ ps' hps' hunchoked hpiece => ?_)
    rw [hps] at hps'
    cases hps'
    rw [hunchoked, hpiece] at h
    simp at h
  | nothing ps hps h =>
    refine .inr (.inr fun _ ps' hps' _ _ => ?_)
    rw [hps] at hps'
    cases hps'
    exact content_of_choose hs hps h
  | closed h =>
    refine .inr (.inr fun hopen => ?_)
    rw [h] at hopen
    cases hopen

/-- Whoever is looked at is served, and nobody else loses by it. -/
theorem Settled.assign (h : s.Settled env.inbox but) (hs : s.Books) (peer : Fin n) :
    (s.assign env peer).Settled env.inbox (but \ {peer}) := by
  rcases assign_cases env peer s with ⟨heq, hpassed⟩ | ⟨⟨ps, idx, fresh, hps, -, -, heq⟩, hroom⟩
  · rw [heq]
    rcases hpassed.served hs with hcomplete | hfull | hserved
    · exact .inl hcomplete
    · exact .inr (.inl hfull)
    · refine h.imp_right (Or.imp_right fun hrest id hid => ?_)
      by_cases hpeer : id = peer
      · exact hpeer ▸ hserved
      · exact hrest id fun hin => hid ⟨hin, hpeer⟩
  · rw [heq]
    rcases h with hcomplete | hfull | hrest
    · exact .inl hcomplete
    · exact absurd hroom (Nat.not_lt.mpr hfull)
    · refine .inr (.inr fun id hid hopen q hq hunchoked hpiece => ?_)
      by_cases hpeer : id = peer
      · -- the peer has a piece now
        subst hpeer
        have hself : (s.grant id ps idx fresh).peers id = some { ps with piece := some idx } :=
          Function.update_self ..
        rw [hself] at hq
        cases hq
        cases hpiece
      · have hother : (s.grant peer ps idx fresh).peers id = s.peers id :=
          Function.update_of_ne hpeer ..
        have hserved := hrest id fun hin => hid ⟨hin, hpeer⟩
        exact (hserved hopen q (hother.symm.trans hq) hunchoked hpiece).grant peer ps idx fresh

theorem Settled.assignAll (h : s.Settled env.inbox but) (hs : s.Inv sha1 first joined spoke)
    (ids : List (Fin n)) :
    (ids.foldl (fun s id => s.assign env id) s).Settled env.inbox (but \ {id | id ∈ ids}) := by
  induction ids generalizing s but with
  | nil => simpa using h
  | cons id rest ih =>
    have hrest := ih (h.assign hs.sound.toBooks id) (hs.assign env id)
    refine hrest.mono ?_
    rintro x ⟨⟨hx, hid⟩, hrest⟩
    exact ⟨hx, fun hin => (List.mem_cons.mp hin).elim hid hrest⟩

/-- When all the idle peers have been looked at, nobody idles. -/
theorem settled_assignIdle (hs : s.Inv sha1 first joined spoke) (env : Env n) :
    (s.assignIdle env).Settled env.inbox ∅ := by
  have hbusy : s.Settled env.inbox {id | s.idle id = true} := by
    refine .inr (.inr fun id hid _ ps hps hunchoked hpiece => absurd ?_ hid)
    simp [idle, hps, hunchoked, hpiece]
  refine (hbusy.assignAll hs ((List.finRange n).filter s.idle)).mono ?_
  rintro id ⟨hidle, hnot⟩
  exact hnot (List.mem_filter.mpr ⟨List.mem_finRange id, hidle⟩)

/-! ## One peer changes -/

/-- What a change of one peer leaves to be looked at. -/
theorem Settled.changed (h : s.Settled inbox ∅) (hc : Changed peer s s')
    (hassigned : s'.assigned = s.assigned) (hon : s'.on peer = s.on peer)
    (hpeer : peer ∉ but → s.Served inbox peer → s'.Served inbox peer) : s'.Settled inbox but := by
  refine h.imp (fun hcomplete => ?_) (Or.imp (fun hfull => ?_) fun hrest id hid => ?_)
  · rw [hc.storage]
    exact hcomplete
  · rw [hc.maxBusy, hc.busy hon]
    exact hfull
  · have hserved := hrest id (Set.notMem_empty id)
    by_cases heq : id = peer
    · subst heq
      exact hpeer hid hserved
    · intro hopen ps hps hunchoked hpiece p hp
      rw [hc.storage, hassigned]
      exact hserved hopen ps ((hc.others id heq).symm.trans hps) hunchoked hpiece p hp

/-- The one peer is looked at. -/
theorem Settled.look (h : s.Settled env.inbox {peer}) (hs : s.Books) :
    (s.assign env peer).Settled env.inbox ∅ := by
  have hlooked := h.assign hs peer
  rwa [sdiff_self] at hlooked

theorem Settled.flag (h : s.Settled inbox ∅) (peer : Fin n) (unchoked : Bool)
    (hbut : peer ∈ but ∨ unchoked = false) : (s.flag peer unchoked).Settled inbox but := by
  cases hps : s.peers peer with
  | none =>
    have hsame : s.flag peer unchoked = s := by rw [Swarm.flag, hps]
    rw [hsame]
    exact h.mono (Set.empty_subset but)
  | some ps =>
    have hset : s.flag peer unchoked = s.setPeer peer (some { ps with unchoked := unchoked }) := by
      rw [Swarm.flag, hps]
    have hself := peers_setPeer peer (some { ps with unchoked := unchoked }) s
    rw [hset]
    refine h.changed (changed_setPeer ..) rfl ((on_eq hself).trans (on_eq hps).symm)
      fun hnot _ _ q hq hunchoked => ?_
    -- a choked peer may idle
    rw [hself] at hq
    cases hq
    rw [hbut.resolve_left hnot] at hunchoked
    cases hunchoked

/-- A peer that has one more piece need not be looked at when the piece is here. -/
theorem Settled.gain (h : s.Settled inbox ∅) (hps : s.peers peer = some ps) {index : Nat}
    (hbut : peer ∈ but ∨ s.storage.has index = true) :
    (s.gain peer index ps).Settled inbox but := by
  have hc : Changed peer s (s.gain peer index ps) :=
    ⟨fun _ hid => Function.update_of_ne hid .., rfl, rfl⟩
  have hself : (s.gain peer index ps).peers peer = some { ps with bf := ps.bf.set index } :=
    Function.update_self ..
  refine h.changed hc rfl ((on_eq hself).trans (on_eq hps).symm)
    fun hnot hserved hopen q hq hunchoked hpiece p hp => ?_
  rw [hself] at hq
  cases hq
  rw [Bitfield.has_set, Bool.or_eq_true, Bool.and_eq_true, decide_eq_true_eq] at hp
  rcases hp with hp | ⟨rfl, -⟩
  · exact hserved hopen ps hps hunchoked hpiece p hp
  · exact .inl (hbut.resolve_left hnot)

theorem Settled.join (h : s.Settled inbox ∅) (env : Env n) (bf : Bitfield)
    (hfree : s.peers peer = none) : (s.join env peer bf).Settled inbox {peer} := by
  have hc : Changed peer s (s.join env peer bf) :=
    ⟨fun _ hid => Function.update_of_ne hid .., rfl, rfl⟩
  have hself : (s.join env peer bf).peers peer = some ⟨bf, none, true, 0, [], env.now⟩ :=
    Function.update_self ..
  have hon : s.on peer = none := by rw [on, hfree, Option.bind_none]
  exact h.changed hc rfl ((on_eq hself).trans hon.symm) fun hnot => absurd rfl hnot

/-! ## One event -/

theorem settled_gone (h : s.Inv sha1 first joined spoke) (env : Env n) (peer : Fin n) :
    (s.gone env peer).Settled env.inbox ∅ := by
  unfold gone
  cases hps : s.peers peer with
  | some ps =>
    have hleft : (s.leave peer ps).Inv sha1 first (joined \ {peer}) spoke :=
      ⟨h.sound.leave hps, h.told.leave peer ps⟩
    exact settled_assignIdle hleft env
  | none => exact settled_assignIdle h env

theorem Settled.handle_joined (h : s.Settled env.inbox ∅) (hs : s.Inv sha1 first joined spoke)
    {bf : Bitfield} (hfree : s.peers peer = none)
    (hlen : bf.len = s.storage.numPieces) (hcrowd : s.crowd < 2 ^ 32 - 1) :
    (s.handle sha1 env (.joined peer bf)).Post (fun _ s' => s'.Settled env.inbox ∅)
      (fun _ _ => True) := by
  have hnoted : (s.note (.received (.joined peer bf))).Settled env.inbox ∅ := h
  have hjoined := (hs.sound.note (.received (.joined peer bf))).join env hfree hlen hcrowd
  exact (hnoted.join env bf hfree).look hjoined.toBooks

theorem Settled.handle (h : s.Settled env.inbox ∅) (hs : s.Inv sha1 first joined spoke)
    {ev : ToEngine n} (hcrowd : s.crowd < 2 ^ 32 - 1)
    (hspoke : ∀ peer index data, ev = .pieceDone peer index data → peer ∈ spoke)
    (hjoined : ∀ peer bf, ev ≠ .joined peer bf) :
    (s.handle sha1 env ev).Post (fun _ s' => s'.Settled env.inbox ∅) (fun _ _ => True) := by
  cases ev with
  | joined peer bf => exact absurd rfl (hjoined peer bf)
  | «have» peer index =>
    have hnoted : (s.note (.received (.have peer index))).Settled env.inbox ∅ := h
    have hsound := hs.sound.note (.received (.have peer index))
    unfold Swarm.handle
    dsimp only
    cases hps : s.peers peer with
    | none => exact hnoted
    | some ps =>
      dsimp only
      by_cases hnew : index < ps.bf.len ∧ ps.bf.has index = false
      · rw [if_pos hnew]
        show Settled ..
        split
        · rename_i hhere
          exact hnoted.gain hps (.inr hhere)
        · have hgained : ((s.note (.received (.have peer index))).gain peer index ps).Settled
              env.inbox {peer} := hnoted.gain hps (.inl rfl)
          have hticked : (((s.note (.received (.have peer index))).gain peer index ps).tick
              env).Settled env.inbox {peer} := hgained
          exact hticked.look ((hsound.gain hps hnew hcrowd).tick env).toBooks
      · rw [if_neg hnew]
        exact hnoted
  | choked peer =>
    have hnoted : (s.note (.received (.choked peer))).Settled env.inbox ∅ := h
    exact hnoted.flag peer false (.inr rfl)
  | unchoked peer =>
    have hnoted : (s.note (.received (.unchoked peer))).Settled env.inbox ∅ := h
    have hsound := hs.sound.note (.received (.unchoked peer))
    unfold Swarm.handle
    dsimp only
    cases hps : s.peers peer with
    | none => exact hnoted
    | some ps =>
      have hticked : (((s.note (.received (.unchoked peer))).flag peer true).tick env).Settled
          env.inbox {peer} := hnoted.flag peer true (.inl rfl)
      exact hticked.look ((hsound.flag peer true).tick env).toBooks
  | pieceDone peer index data =>
    have hpost := hs.pieceDone_assignIdle env index data (hspoke peer index data rfl)
    show (s.pieceDone sha1 env peer index data).Post ..
    cases hres : s.pieceDone sha1 env peer index data with
    | error e s' => trivial
    | ok u s' =>
      rw [hres] at hpost
      obtain ⟨t, ht, rfl⟩ := hpost
      exact settled_assignIdle ht env
  | released peer index =>
    have hnoted := hs.note (x := .received (.released peer index)) trivial
    exact settled_assignIdle ((hnoted.clearPiece env peer index).flag peer false) env
  | gone peer =>
    exact settled_gone (hs.note (x := .received (.gone peer)) trivial) env peer

theorem Settled.evictIdle (h : s.Settled env.inbox ∅) (hs : s.Inv sha1 first joined spoke)
    (after : Nat) (order : List (Fin n)) :
    (s.evictIdle env after order).Settled env.inbox ∅ := by
  unfold Swarm.evictIdle
  generalize order.filter _ = stale
  induction stale generalizing s with
  | nil => exact h
  | cons id rest ih =>
    have hstopped : (if (s.peers id).isSome then s.note (.stopped id) else s).Inv sha1 first joined
        spoke := by
      split
      · exact hs.note (x := .stopped id) trivial
      · exact hs
    exact ih (settled_gone hstopped env id) ((hstopped.gone env id).mono Set.sdiff_subset subset_rfl)

end Swarm

namespace Engine

variable {n : Nat} {sha1 : Bytes → Bytes} {storage : Storage} {e e' : Engine n}

/-- No peer with a reader idles. -/
def Settled (e : Engine n) : Prop := e.swarm.Settled (fun id => !e.closed id) ∅

theorem Settled.spawnMore (h : e.Settled) (k : Nat) : (e.spawnMore k).Settled := by
  induction k generalizing e with
  | zero => exact h
  | succ k ih =>
    rw [Engine.spawnMore]
    split
    · exact ih h
    · exact h

theorem Settled.receive (h : e.Settled) (hs : e.Standing sha1 storage) (hrun : e.failed = none)
    (now : Nat) (faults : Faults) {ev : ToEngine n} (hev : e.CanSend ev)
    (hrun' : (e.receive sha1 now faults ev).failed = none) :
    (e.receive sha1 now faults ev).Settled := by
  have hinv := hs.inv hrun
  have hsettled : e.swarm.Settled (e.env now faults).inbox ∅ := h
  have hother (hquiet : ∀ peer bf, ev ≠ .joined peer bf)
      (hspoke : ∀ peer index data, ev = .pieceDone peer index data → peer ∈ e.spoke)
      (heq : e.receive sha1 now faults ev = e.handled (e.swarm.handle sha1 (e.env now faults) ev)) :
      (e.receive sha1 now faults ev).Settled := by
    have hpost := hsettled.handle hinv (hs.crowd hrun) hspoke hquiet
    rw [heq] at hrun' ⊢
    cases hres : e.swarm.handle sha1 (e.env now faults) ev with
    | error err s =>
      rw [hres] at hrun'
      cases hrun'
    | ok u s =>
      rw [hres] at hpost
      exact hpost
  cases ev with
  | joined peer bf =>
    have hpost := hsettled.handle_joined hinv (hs.absent hrun hev.1) hev.2 (hs.crowd hrun)
    unfold Engine.receive at hrun' ⊢
    dsimp only at hrun' ⊢
    cases hres : e.swarm.handle sha1 (e.env now faults) (.joined peer bf) with
    | error err s =>
      rw [hres] at hrun'
      cases hrun'
    | ok u s =>
      rw [hres] at hpost
      exact hpost
  | gone peer =>
    have hnoted := hinv.note (x := .received (.gone peer)) trivial
    refine Settled.spawnMore ?_ n
    exact Swarm.settled_gone hnoted (e.env now faults) peer
  | «have» peer index => exact hother (by simp) (by simp) rfl
  | choked peer => exact hother (by simp) (by simp) rfl
  | unchoked peer => exact hother (by simp) (by simp) rfl
  | pieceDone peer index data =>
    refine hother (by simp) (fun peer' index' data' heq => ?_) rfl
    cases heq
    exact .inl hev
  | released peer index => exact hother (by simp) (by simp) rfl

theorem settled_start (n : Nat) (storage : Storage) (now : Nat) :
    (start n storage now).Settled := by
  refine Settled.spawnMore ?_ n
  exact .inr (.inr fun id _ _ => nofun)

theorem Settled.run (hst : storage.have.len = storage.numPieces) {now : Nat}
    (h : Reached sha1 storage now e) : e.failed = none → e.Settled := by
  induction h with
  | refl => exact fun _ => settled_start n storage now
  | tail hrun hstep ih =>
    have hs := Standing.run hst hrun
    intro hok
    cases hstep with
    | closes peer =>
      -- there is one peer less to serve
      refine (ih hok).imp_right (Or.imp_right fun hrest id hid hopen => hrest id hid ?_)
      by_cases hid : id = peer
      · simp [hid] at hopen
      · simpa [Function.update_of_ne hid] using hopen
    | receives ev now faults hfine hev => exact (ih hfine).receive hs hfine now faults hev hok
    | evicts now after faults order hfine hnext =>
      have hsettled : Swarm.Settled (Engine.env _ now faults).inbox ∅ _ := ih hfine
      exact hsettled.evictIdle (hs.inv hfine) after order

/-- While there is work, and room for a peer at work, an unchoked peer that has none can do none. -/
theorem never_idle (sha1 : Bytes → Bytes) (storage : Storage)
    (hst : storage.have.len = storage.numPieces) (now : Nat) {e : Engine n}
    (h : Reached sha1 storage now e) (hrun : e.failed = none)
    (hmore : e.swarm.storage.isComplete = false) (hroom : e.swarm.busy < e.swarm.maxBusy)
    {id : Fin n} (hopen : e.closed id = false) {ps : PeerState} (hps : e.swarm.peers id = some ps)
    (hunchoked : ps.unchoked = true) (hpiece : ps.piece = none) (p : Nat) :
    ¬(ps.bf.has p = true ∧ e.swarm.storage.has p = false ∧ p ∉ e.swarm.assigned ∧
      ¬e.swarm.Corrupted sha1 id p) := by
  rintro ⟨hp, hlack, hfree, hclean⟩
  rcases Settled.run hst h hrun with hcomplete | hfull | hrest
  · rw [hmore] at hcomplete
    cases hcomplete
  · exact absurd hroom (Nat.not_lt.mpr hfull)
  · have hopen' : (!e.closed id) = true := by rw [hopen, Bool.not_false]
    rcases hrest id (Set.notMem_empty id) hopen' ps hps hunchoked hpiece p hp with hhas | hin | hbad
    · rw [hlack] at hhas
      cases hhas
    · exact hfree hin
    · exact hclean (((Standing.run hst h).inv hrun).told.blamed id p ps hps hbad)

/-- Two peers that have the second piece only. -/
def onePeer : Engine 2 :=
  (start 2 twoPieces 0).receive smallSha1 5 noFaults (.joined 0 ((Bitfield.new 2).set 1))

def twoPeers : Engine 2 :=
  onePeer.receive smallSha1 6 noFaults (.joined 1 ((Bitfield.new 2).set 1))

theorem never_idle_second :
    ¬(((Bitfield.new 2).set 1).has 1 = true ∧ twoPeers.swarm.storage.has 1 = false ∧
      1 ∉ twoPeers.swarm.assigned ∧ ¬twoPeers.swarm.Corrupted smallSha1 1 1) := by
  have hfirst : Reached smallSha1 twoPieces 0 onePeer :=
    .single (.receives _ 5 noFaults rfl ⟨rfl, rfl⟩)
  have hreached : Reached smallSha1 twoPieces 0 twoPeers :=
    .tail hfirst (.receives _ 6 noFaults rfl ⟨rfl, rfl⟩)
  have hidle : twoPeers.swarm.peers 1 = some ⟨(Bitfield.new 2).set 1, none, true, 0, [], 6⟩ := by
    rfl
  exact never_idle smallSha1 twoPieces rfl 0 hreached rfl (by decide) (by decide) rfl hidle rfl rfl 1

end Engine

end Rsurl.Bittorrent
