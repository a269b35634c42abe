import Rsurl.Bittorrent.Seed

/-!
# Fetching one piece

A peer connection fetches one piece at a time, block by block. A window of block requests is kept in
flight, a choke forgets the requests, and blocks are stored in whatever order they come. Fixed-width
arithmetic and slices are checked: where the code would panic, the model says `none`.
-/

namespace Rsurl.Bittorrent

open Library

def pipelineDepth : Nat := 16
def blockSize : Nat := 16 * 1024

def eerr (msg : String) : Error := .badResponse ("bittorrent: " ++ msg)

def mulU32 (a b : Nat) : Option Nat := if a * b < 2 ^ 32 then some (a * b) else none
def subU32 (a b : Nat) : Option Nat := if b ≤ a then some (a - b) else none

structure Job where
  index : Nat
  size : Nat
  buf : Bytes
  requested : List Bool
  filled : List Bool
  received : Nat
  outstanding : Nat
  next : Nat
  lastProgress : Nat
  deriving DecidableEq, Repr

/-- The fields of a `Message::Request`. -/
structure Request where
  index : Nat
  start : Nat
  length : Nat
  deriving DecidableEq, Repr

/-- What a call of `pump` leaves behind: the job, the requests written, and how it ended. -/
structure Pumped where
  job : Job
  sent : List Request
  result : Except Error Unit

namespace Job

def new (index size now : Nat) : Except Error Job :=
  if 2 ^ 32 ≤ size then .error (eerr "piece larger than 4 GiB is unsupported")
  else if 2 ^ 32 ≤ index then .error (eerr "piece index out of range")
  else
    let numBlocks := (size + blockSize - 1) / blockSize
    .ok
      { index, size
        buf := List.replicate size 0
        requested := List.replicate numBlocks false
        filled := List.replicate numBlocks false
        received := 0, outstanding := 0, next := 0, lastProgress := now }

def numBlocks (j : Job) : Nat := j.filled.length

def blockLen (j : Job) (bi : Nat) : Option Nat :=
  (mulU32 (bi % 2 ^ 32) blockSize).bind fun start =>
    (subU32 j.size start).map fun left => min blockSize left

def isDone (j : Job) : Bool := j.received == j.numBlocks

/-- The request for a block. -/
def request (j : Job) (bi : Nat) : Option Request :=
  (mulU32 (bi % 2 ^ 32) blockSize).bind fun start =>
    (j.blockLen bi).map fun length => ⟨j.index, start, length⟩

/-- The job once the block under the cursor has been asked for. -/
def ask (j : Job) : Job :=
  { j with
    next := j.next + 1
    requested := j.requested.set j.next true
    outstanding := j.outstanding + 1 }

/-- `write` is what the connection makes of a request. -/
def pump (write : Request → Except Error Unit) (j : Job) : Option Pumped :=
  if _h : j.outstanding < pipelineDepth ∧ j.next < j.numBlocks then
    match j.filled[j.next]?, j.requested[j.next]? with
    | some filled, some requested =>
      if filled || requested then pump write { j with next := j.next + 1 }
      else match j.request j.next with
        | none => none
        | some req => match write req with
          | .error e => some ⟨{ j with next := j.next + 1 }, [], .error e⟩
          | .ok () =>
            (pump write j.ask).map fun p => { p with sent := req :: p.sent }
    | _, _ => none
  else some ⟨j, [], .ok ()⟩
termination_by j.numBlocks - j.next
decreasing_by all_goals (simp_all only [numBlocks, ask]; omega)

def onChoke (j : Job) : Job :=
  { j with
    requested := List.zipWith (fun req filled => filled && req) j.requested j.filled ++
      j.requested.drop j.filled.length
    outstanding := 0
    next := 0 }

/-- `copy_from_slice` into a range of the buffer. -/
def copyInto (buf : Bytes) (off : Nat) (block : Bytes) : Option Bytes :=
  if off + block.length ≤ buf.length then
    some (buf.take off ++ block ++ buf.drop (off + block.length))
  else none

/-- Whether the block was stored. -/
def onBlock (now start : Nat) (block : Bytes) (j : Job) : Option (Bool × Job) :=
  if start % blockSize ≠ 0 then some (false, j)
  else
    let bi := start / blockSize
    if j.numBlocks ≤ bi then some (false, j)
    else match j.filled[bi]?, j.requested[bi]? with
      | some true, _ => some (false, j)
      | some false, some requested => (j.blockLen bi).bind fun len =>
        if block.length ≠ len then some (false, j)
        else (copyInto j.buf start block).map fun buf =>
          (true,
            { j with
              buf
              filled := j.filled.set bi true
              received := j.received + 1
              outstanding := if requested then j.outstanding - 1 else j.outstanding
              lastProgress := now })
      | _, _ => none

/-! ## What the bitmaps say -/

def IsRequested (j : Job) (i : Nat) : Prop := j.requested[i]? = some true
def IsFilled (j : Job) (i : Nat) : Prop := j.filled[i]? = some true

instance (j : Job) (i : Nat) : Decidable (j.IsRequested i) :=
  inferInstanceAs (Decidable (j.requested[i]? = some true))
instance (j : Job) (i : Nat) : Decidable (j.IsFilled i) :=
  inferInstanceAs (Decidable (j.filled[i]? = some true))

/-- Requested and not filled. -/
def pending (j : Job) : Finset Nat :=
  (Finset.range j.numBlocks).filter fun i => j.IsRequested i ∧ ¬j.IsFilled i

def stored (j : Job) : Finset Nat := (Finset.range j.numBlocks).filter j.IsFilled

/-- The counters and the cursor say what the bitmaps say. -/
structure Sound (j : Job) : Prop where
  sized : j.size < 2 ^ 32
  buf : j.buf.length = j.size
  filled : j.filled.length = (j.size + blockSize - 1) / blockSize
  requested : j.requested.length = j.filled.length
  outstanding : j.outstanding = j.pending.card
  window : j.outstanding ≤ pipelineDepth
  received : j.received = j.stored.card
  cursor : ∀ i < j.next, j.IsRequested i ∨ j.IsFilled i

variable {j j' : Job} {i n now start : Nat} {block : Bytes}

theorem mem_pending : i ∈ j.pending ↔ i < j.numBlocks ∧ j.IsRequested i ∧ ¬j.IsFilled i := by
  simp [pending]

theorem mem_stored : i ∈ j.stored ↔ j.IsFilled i := by
  have hlt : j.IsFilled i → i < j.numBlocks := fun h => (List.getElem?_eq_some_iff.mp h).1
  simpa [stored] using hlt

theorem isFilled_lt (h : j.IsFilled i) : i < j.numBlocks := (List.getElem?_eq_some_iff.mp h).1

/-- Not even the last block starts past the end. -/
theorem Sound.start_lt (h : j.Sound) (hi : i < j.numBlocks) : i * blockSize < j.size := by
  have hfilled := h.filled
  unfold numBlocks at hi
  unfold blockSize at *
  omega

theorem Sound.blockLen (h : j.Sound) (hi : i < j.numBlocks) :
    j.blockLen i = some (min blockSize (j.size - i * blockSize)) := by
  have hstart := h.start_lt hi
  have hsized := h.sized
  have hmod : i % 2 ^ 32 = i := by
    apply Nat.mod_eq_of_lt
    unfold blockSize at hstart
    omega
  rw [Job.blockLen, hmod, mulU32, if_pos (by omega), Option.bind_some, subU32, if_pos (by omega)]
  rfl

theorem Sound.request (h : j.Sound) (hi : i < j.numBlocks) : j.request i =
    some ⟨j.index, i * blockSize, min blockSize (j.size - i * blockSize)⟩ := by
  have hstart := h.start_lt hi
  have hsized := h.sized
  have hmod : i % 2 ^ 32 = i := by
    apply Nat.mod_eq_of_lt
    unfold blockSize at hstart
    omega
  rw [Job.request, h.blockLen hi, hmod, mulU32, if_pos (by omega)]
  rfl

/-! ## Requests -/

theorem Sound.advance (h : j.Sound) (hnext : j.IsRequested j.next ∨ j.IsFilled j.next) :
    Sound { j with next := j.next + 1 } where
  sized := h.sized
  buf := h.buf
  filled := h.filled
  requested := h.requested
  outstanding := h.outstanding
  window := h.window
  received := h.received
  cursor i hi := by
    rcases Nat.lt_succ_iff_lt_or_eq.mp hi with hlt | rfl
    · exact h.cursor i hlt
    · exact hnext

theorem isRequested_ask (hlt : j.next < j.requested.length) :
    j.ask.IsRequested i ↔ i = j.next ∨ j.IsRequested i := by
  unfold IsRequested ask
  by_cases hi : i = j.next
  · simp [hi, hlt]
  · simp [hi, List.getElem?_set_ne (Ne.symm hi)]

theorem Sound.ask (h : j.Sound) (hwindow : j.outstanding < pipelineDepth)
    (hlt : j.next < j.numBlocks) (hfilled : ¬j.IsFilled j.next) (hreq : ¬j.IsRequested j.next) :
    j.ask.Sound := by
  have hlt' : j.next < j.requested.length := h.requested ▸ hlt
  have hpending : j.ask.pending = insert j.next j.pending := by
    ext i
    rw [Finset.mem_insert, mem_pending, mem_pending, isRequested_ask hlt']
    by_cases hi : i = j.next
    · simpa [hi] using ⟨hlt, hfilled⟩
    · simp only [hi, false_or]
      rfl
  have hnot : j.next ∉ j.pending := fun hmem => hreq (mem_pending.mp hmem).2.1
  refine ⟨h.sized, h.buf, h.filled, ?_, ?_, hwindow, h.received, ?_⟩
  · exact List.length_set.trans h.requested
  · rw [hpending, Finset.card_insert_of_notMem hnot, ← h.outstanding]
    rfl
  · intro i hi
    rw [isRequested_ask hlt']
    rcases Nat.lt_succ_iff_lt_or_eq.mp hi with hlt | heq
    · exact (h.cursor i hlt).imp_left .inr
    · exact .inl (.inl heq)

/-- What `pump` did when it ended as `p`. -/
structure Pumps (j : Job) (p : Pumped) : Prop where
  index : p.job.index = j.index
  size : p.job.size = j.size
  buf : p.job.buf = j.buf
  filled : p.job.filled = j.filled
  keeps : ∀ i, j.IsRequested i → p.job.IsRequested i
  sent : ∀ r ∈ p.sent, ∃ i, r = ⟨j.index, i * blockSize, min blockSize (j.size - i * blockSize)⟩ ∧
    p.job.IsRequested i ∧ ¬j.IsRequested i
  once : (p.sent.map Request.start).Nodup
  sound : p.result = .ok () → p.job.Sound
  full : p.result = .ok () → pipelineDepth ≤ p.job.outstanding ∨ j.numBlocks ≤ p.job.next

/-- A pump does not panic. -/
theorem Sound.pump (h : j.Sound) (write : Request → Except Error Unit) :
    ∃ p, j.pump write = some p ∧ Pumps j p := by
  fun_induction Job.pump write j with
  | case1 j hloop filled requested hr hf hskip ih =>
    have hnext : j.IsRequested j.next ∨ j.IsFilled j.next := by
      rcases Bool.or_eq_true_iff.mp hskip with rfl | rfl
      · exact .inr hf
      · exact .inl hr
    obtain ⟨p, hp, hpumps⟩ := ih (h.advance hnext)
    exact ⟨p, hp, hpumps.index, hpumps.size, hpumps.buf, hpumps.filled, hpumps.keeps, hpumps.sent,
      hpumps.once, hpumps.sound, hpumps.full⟩
  | case2 j hloop filled requested hr hf hskip hnone =>
    rw [h.request hloop.2] at hnone
    cases hnone
  | case3 j hloop filled requested hr hf hskip req hreq e hwrite =>
    exact ⟨_, rfl, rfl, rfl, rfl, rfl, fun _ hi => hi, by simp, by simp, by simp, by simp⟩
  | case4 j hloop filled requested hr hf hskip req hreq hwrite ih =>
    obtain ⟨hfilled, hrequested⟩ : filled = false ∧ requested = false := by simpa using hskip
    have hnot : ¬j.IsRequested j.next := by simp [IsRequested, hr, hrequested]
    obtain ⟨p, hp, hpumps⟩ :=
      ih (h.ask hloop.1 hloop.2 (by simp [IsFilled, hf, hfilled]) hnot)
    have hlt : j.next < j.requested.length := h.requested ▸ hloop.2
    have hask : j.ask.IsRequested j.next := (isRequested_ask hlt).mpr (.inl rfl)
    rw [h.request hloop.2] at hreq
    injection hreq with hreq
    subst hreq
    refine ⟨_, congrArg _ hp, hpumps.index, hpumps.size, hpumps.buf, hpumps.filled, ?_, ?_, ?_,
      hpumps.sound, hpumps.full⟩
    · intro i hi
      exact hpumps.keeps i ((isRequested_ask hlt).mpr (.inr hi))
    · intro r hr
      rcases List.mem_cons.mp hr with rfl | hr
      · exact ⟨_, rfl, hpumps.keeps _ hask, hnot⟩
      · obtain ⟨i, rfl, hi, hi'⟩ := hpumps.sent r hr
        exact ⟨i, rfl, hi, fun hold => hi' ((isRequested_ask hlt).mpr (.inr hold))⟩
    · rw [List.map_cons, List.nodup_cons]
      refine ⟨fun hmem => ?_, hpumps.once⟩
      obtain ⟨r, hr, heq⟩ := List.mem_map.mp hmem
      obtain ⟨i, rfl, hi, hi'⟩ := hpumps.sent r hr
      have : i = j.next := by
        simp only [blockSize] at heq
        omega
      exact hi' (this ▸ hask)
  | case5 j hloop hother =>
    have hf : j.next < j.filled.length := hloop.2
    have hr : j.next < j.requested.length := h.requested ▸ hf
    exact (hother _ _ (List.getElem?_eq_getElem hf) (List.getElem?_eq_getElem hr)).elim
  | case6 j hloop =>
    refine ⟨_, rfl, rfl, rfl, rfl, rfl, fun _ hi => hi, by simp, by simp, fun _ => h, fun _ => ?_⟩
    rw [not_and_or, not_lt, not_lt] at hloop
    exact hloop

/-- An unfinished piece is always waited for. -/
theorem Pumps.busy {p : Pumped} (hp : Pumps j p) (hok : p.result = .ok ())
    (hdone : p.job.isDone = false) : p.job.pending.Nonempty := by
  have hs := hp.sound hok
  rw [← Finset.card_pos, ← hs.outstanding]
  rcases hp.full hok with hfull | hend
  · exact Nat.lt_of_lt_of_le (by decide) hfull
  · by_contra hzero
    have hempty : p.job.pending = ∅ := by
      rw [← Finset.card_eq_zero, ← hs.outstanding]
      omega
    have hall : p.job.stored = Finset.range p.job.numBlocks := by
      ext i
      rw [mem_stored, Finset.mem_range]
      refine ⟨isFilled_lt, fun hi => ?_⟩
      have hcursor := hs.cursor i (by
        rw [numBlocks, hp.filled] at hi
        exact Nat.lt_of_lt_of_le hi hend)
      by_contra hnot
      have : i ∈ p.job.pending := mem_pending.mpr ⟨hi, hcursor.resolve_right hnot, hnot⟩
      rw [hempty] at this
      exact Finset.notMem_empty i this
    have hreceived := hs.received
    rw [hall, Finset.card_range] at hreceived
    simp [isDone, hreceived] at hdone

/-! ## Chokes -/

theorem Sound.requested_onChoke (h : j.Sound) : j.onChoke.requested =
    List.zipWith (fun req filled => filled && req) j.requested j.filled := by
  simp [onChoke, List.drop_of_length_le h.requested.le]

theorem Sound.isRequested_onChoke (h : j.Sound) :
    j.onChoke.IsRequested i ↔ j.IsRequested i ∧ j.IsFilled i := by
  rw [IsRequested, h.requested_onChoke, List.getElem?_zipWith]
  unfold IsRequested IsFilled
  cases hr : j.requested[i]? with
  | none => simp
  | some req =>
    cases hf : j.filled[i]? with
    | none => simp
    | some filled => simp [and_comm]

theorem Sound.onChoke (h : j.Sound) : j.onChoke.Sound where
  sized := h.sized
  buf := h.buf
  filled := h.filled
  requested := by
    rw [h.requested_onChoke, List.length_zipWith, h.requested]
    exact Nat.min_self _
  outstanding := by
    symm
    refine Finset.card_eq_zero.mpr (Finset.eq_empty_of_forall_notMem fun i hi => ?_)
    obtain ⟨-, hreq, hfilled⟩ := mem_pending.mp hi
    exact hfilled (h.isRequested_onChoke.mp hreq).2
  window := Nat.zero_le _
  received := h.received
  cursor i hi := (Nat.not_lt_zero i hi).elim

/-! ## Blocks -/

/-- The block belongs at `i` and is missing there. -/
structure Fits (j : Job) (i start : Nat) (block : Bytes) : Prop where
  start : start = i * blockSize
  lt : i < j.numBlocks
  missing : ¬j.IsFilled i
  length : block.length = min blockSize (j.size - i * blockSize)

/-- The job once the block is stored. -/
def store (now i : Nat) (block : Bytes) (j : Job) : Job :=
  { j with
    buf := Extent.writeAt 0 (i * blockSize) block j.buf
    filled := j.filled.set i true
    received := j.received + 1
    outstanding := if j.IsRequested i then j.outstanding - 1 else j.outstanding
    lastProgress := now }

theorem copyInto_eq {buf : Bytes} {off : Nat} (h : off + block.length ≤ buf.length) :
    copyInto buf off block = some (Extent.writeAt 0 off block buf) := by
  rw [copyInto, if_pos h, Extent.writeAt_of_le 0 h]

theorem Sound.end_le (h : j.Sound) (hfit : j.Fits i start block) :
    i * blockSize + block.length ≤ j.buf.length := by
  have hstart := h.start_lt hfit.lt
  rw [h.buf, hfit.length]
  omega

/-- A block is stored where it fits, and else ignored; nothing panics. -/
theorem Sound.onBlock (h : j.Sound) (now start : Nat) (block : Bytes) :
    (∃ i, j.Fits i start block ∧ j.onBlock now start block = some (true, j.store now i block)) ∨
      (∀ i, ¬j.Fits i start block) ∧ j.onBlock now start block = some (false, j) := by
  unfold Job.onBlock
  have hat {i : Nat} (hfit : j.Fits i start block) : start / blockSize = i := by
    rw [hfit.start, Nat.mul_div_cancel i (by decide)]
  by_cases haligned : start % blockSize = 0
  case neg =>
    rw [if_pos haligned]
    exact .inr ⟨fun i hfit => haligned (by rw [hfit.start, Nat.mul_mod_left]), rfl⟩
  rw [if_neg (not_not_intro haligned)]
  extract_lets bi
  have hbi : start = bi * blockSize := (Nat.div_mul_cancel (Nat.dvd_of_mod_eq_zero haligned)).symm
  clear_value bi
  by_cases hlt : j.numBlocks ≤ bi
  case pos =>
    rw [if_pos hlt]
    refine .inr ⟨fun i hfit => ?_, rfl⟩
    have hi := hat hfit
    rw [hbi, Nat.mul_div_cancel bi (by decide)] at hi
    exact absurd hfit.lt (by omega)
  rw [if_neg hlt]
  rw [Nat.not_le] at hlt
  obtain ⟨filled, hf⟩ : ∃ filled, j.filled[bi]? = some filled :=
    ⟨_, List.getElem?_eq_getElem (show bi < j.filled.length from hlt)⟩
  obtain ⟨requested, hr⟩ : ∃ requested, j.requested[bi]? = some requested :=
    ⟨_, List.getElem?_eq_getElem (h.requested.symm ▸ hlt)⟩
  have hsame {i : Nat} (hfit : j.Fits i start block) : i = bi := by
    rw [← hat hfit, hbi, Nat.mul_div_cancel bi (by decide)]
  rw [hf, hr]
  cases filled with
  | true => exact .inr ⟨fun i hfit => hfit.missing (hsame hfit ▸ hf), rfl⟩
  | false =>
    have hmissing : ¬j.IsFilled bi := by simp [IsFilled, hf]
    simp only [h.blockLen hlt, Option.bind_some]
    by_cases hlen : block.length = min blockSize (j.size - bi * blockSize)
    · have hfit : j.Fits bi start block := ⟨hbi, hlt, hmissing, hlen⟩
      refine .inl ⟨bi, hfit, ?_⟩
      rw [if_neg (not_not_intro hlen), hbi, copyInto_eq (h.end_le hfit)]
      cases requested <;> simp [store, IsRequested, hr]
    · rw [if_pos hlen]
      exact .inr ⟨fun i hfit => hlen (hsame hfit ▸ hfit.length), rfl⟩

theorem isFilled_store {k : Nat} (hi : i < j.numBlocks) :
    (j.store now i block).IsFilled k ↔ k = i ∨ j.IsFilled k := by
  have hlt : i < j.filled.length := hi
  unfold IsFilled store
  by_cases hk : k = i
  · simp [hk, hlt]
  · simp [hk, List.getElem?_set_ne (Ne.symm hk)]

theorem Sound.store (h : j.Sound) (hfit : j.Fits i start block) :
    (j.store now i block).Sound := by
  have hnum : (j.store now i block).numBlocks = j.numBlocks := List.length_set
  have hstored : (j.store now i block).stored = insert i j.stored := by
    ext k
    rw [Finset.mem_insert, mem_stored, mem_stored, isFilled_store hfit.lt]
  have hpending : (j.store now i block).pending = j.pending.erase i := by
    ext k
    rw [Finset.mem_erase, mem_pending, mem_pending, isFilled_store hfit.lt, hnum, not_or]
    exact ⟨fun ⟨hk, hreq, hne, hnot⟩ => ⟨hne, hk, hreq, hnot⟩,
      fun ⟨hne, hk, hreq, hnot⟩ => ⟨hk, hreq, hne, hnot⟩⟩
  have hcount : (j.store now i block).outstanding = (j.pending.erase i).card := by
    by_cases hreq : j.IsRequested i
    · have hmem : i ∈ j.pending := mem_pending.mpr ⟨hfit.lt, hreq, hfit.missing⟩
      rw [Finset.card_erase_of_mem hmem, ← h.outstanding]
      exact if_pos hreq
    · have hmem : i ∉ j.pending := fun hmem => hreq (mem_pending.mp hmem).2.1
      rw [Finset.erase_eq_of_notMem hmem, ← h.outstanding]
      exact if_neg hreq
  refine ⟨h.sized, ?_, ?_, ?_, ?_, ?_, ?_, ?_⟩
  · have hle := h.end_le hfit
    exact (Extent.length_writeAt ..).trans ((max_eq_left hle).trans h.buf)
  · exact List.length_set.trans h.filled
  · exact h.requested.trans List.length_set.symm
  · rw [hpending, hcount]
  · rw [hcount]
    exact (Finset.card_erase_le).trans (h.outstanding ▸ h.window)
  · have hnot : i ∉ j.stored := fun hmem => hfit.missing (mem_stored.mp hmem)
    rw [hstored, Finset.card_insert_of_notMem hnot, ← h.received]
    rfl
  · intro k hk
    rw [isFilled_store hfit.lt]
    exact (h.cursor k hk).imp_right .inr

/-! ## Runs -/

theorem sound_new {index size : Nat} (h : new index size now = .ok j) : j.Sound := by
  unfold new at h
  split at h
  · cases h
  split at h
  · cases h
  rename_i hsize hindex
  cases h
  have hnone (i : Nat) : ¬(List.replicate ((size + blockSize - 1) / blockSize) false)[i]? =
      some true := by
    simp [List.getElem?_replicate]
  refine ⟨Nat.lt_of_not_le hsize, List.length_replicate, List.length_replicate, rfl, ?_,
    Nat.zero_le _, ?_, ?_⟩
  · symm
    exact Finset.card_eq_zero.mpr (Finset.eq_empty_of_forall_notMem fun i hi =>
      hnone i (mem_pending.mp hi).2.1)
  · symm
    exact Finset.card_eq_zero.mpr (Finset.eq_empty_of_forall_notMem fun i hi =>
      hnone i (mem_stored.mp hi))
  · intro i hi
    exact (Nat.not_lt_zero i hi).elim

/-- Jobs that pumps, chokes and blocks lead to, with the requests written since the last choke and
the blocks that were stored. A pump that fails ends the connection, and the job with it. -/
inductive Reached (index size : Nat) : Job → List Request → (Nat → Option Bytes) → Prop
  | new {now : Nat} {j : Job} (h : Job.new index size now = .ok j) :
    Reached index size j [] fun _ => none
  | pump {j : Job} {sent : List Request} {blocks : Nat → Option Bytes}
    (h : Reached index size j sent blocks) (write : Request → Except Error Unit) {p : Pumped}
    (hp : j.pump write = some p) (hok : p.result = .ok ()) :
    Reached index size p.job (sent ++ p.sent) blocks
  | choke {j : Job} {sent : List Request} {blocks : Nat → Option Bytes}
    (h : Reached index size j sent blocks) : Reached index size j.onChoke [] blocks
  | stored {j j' : Job} {sent : List Request} {blocks : Nat → Option Bytes}
    (h : Reached index size j sent blocks) (now start : Nat) (block : Bytes)
    (hb : j.onBlock now start block = some (true, j')) :
    Reached index size j' sent (Function.update blocks (start / blockSize) (some block))
  | ignored {j j' : Job} {sent : List Request} {blocks : Nat → Option Bytes}
    (h : Reached index size j sent blocks) (now start : Nat) (block : Bytes)
    (hb : j.onBlock now start block = some (false, j')) : Reached index size j' sent blocks

variable {index size : Nat} {sent : List Request} {blocks : Nat → Option Bytes}

/-- The job beside what has been sent and stored. -/
structure Recorded (j : Job) (sent : List Request) (blocks : Nat → Option Bytes) : Prop where
  sound : j.Sound
  once : (sent.map Request.start).Nodup
  asked : ∀ r ∈ sent, ∃ i, r.start = i * blockSize ∧ j.IsRequested i
  filled : ∀ i, j.IsFilled i ↔ (blocks i).isSome
  length : ∀ i b, blocks i = some b → b.length = min blockSize (j.size - i * blockSize)
  bytes : ∀ i b, blocks i = some b → ∀ k < b.length, j.buf[i * blockSize + k]? = b[k]?

theorem Recorded.new {index size : Nat} (h : Job.new index size now = .ok j) :
    j.Recorded [] fun _ => none := by
  have hs := sound_new h
  have hzero : j.received = 0 := by
    unfold Job.new at h
    split at h
    · cases h
    split at h
    · cases h
    cases h
    rfl
  refine ⟨hs, List.nodup_nil, by simp, fun i => ?_, by simp, by simp⟩
  rw [hs.received, Finset.card_eq_zero] at hzero
  simp [← mem_stored, hzero]

theorem Recorded.pump (h : j.Recorded sent blocks) {p : Pumped} (hp : Pumps j p)
    (hok : p.result = .ok ()) : p.job.Recorded (sent ++ p.sent) blocks where
  sound := hp.sound hok
  once := by
    rw [List.map_append]
    refine List.nodup_append.mpr ⟨h.once, hp.once, fun a ha b hb hab => ?_⟩
    obtain ⟨r, hr, rfl⟩ := List.mem_map.mp ha
    obtain ⟨r', hr', rfl⟩ := List.mem_map.mp hb
    obtain ⟨i, hi, hreq⟩ := h.asked r hr
    obtain ⟨i', rfl, -, hnot⟩ := hp.sent r' hr'
    have : i = i' := Nat.eq_of_mul_eq_mul_right (by decide) (hi.symm.trans hab)
    exact hnot (this ▸ hreq)
  asked r hr := by
    rcases List.mem_append.mp hr with hr | hr
    · obtain ⟨i, hi, hreq⟩ := h.asked r hr
      exact ⟨i, hi, hp.keeps i hreq⟩
    · obtain ⟨i, rfl, hreq, -⟩ := hp.sent r hr
      exact ⟨i, rfl, hreq⟩
  filled i := by
    rw [← h.filled i, IsFilled, IsFilled, hp.filled]
  length := by
    rw [hp.size]
    exact h.length
  bytes := by
    rw [hp.buf]
    exact h.bytes

theorem Recorded.choke (h : j.Recorded sent blocks) : j.onChoke.Recorded [] blocks :=
  ⟨h.sound.onChoke, List.nodup_nil, by simp, h.filled, h.length, h.bytes⟩

/-- A block lies before or behind every other. -/
theorem Recorded.store (h : j.Recorded sent blocks) (hfit : j.Fits i start block) (now : Nat) :
    (j.store now i block).Recorded sent (Function.update blocks i (some block)) where
  sound := h.sound.store hfit
  once := h.once
  asked := h.asked
  filled k := by
    rw [isFilled_store hfit.lt, h.filled k]
    by_cases hk : k = i
    · simp [hk]
    · simp [Function.update_of_ne hk, hk]
  length k b hb := by
    by_cases hk : k = i
    · subst hk
      rw [Function.update_self] at hb
      cases hb
      exact hfit.length
    · rw [Function.update_of_ne hk] at hb
      exact h.length k b hb
  bytes k b hb m hm := by
    by_cases hk : k = i
    · subst hk
      rw [Function.update_self] at hb
      cases hb
      exact Extent.getElem?_writeAt_of_mem 0 block j.buf hm
    · rw [Function.update_of_ne hk] at hb
      have hold := h.bytes k b hb m hm
      have hle := h.length k b hb
      have hlen := hfit.length
      have hend := h.sound.end_le hfit
      rw [← hold]
      rcases Nat.lt_or_gt_of_ne hk with hbefore | hbehind
      · have hlt : k * blockSize + m < i * blockSize := by
          have : (k + 1) * blockSize ≤ i * blockSize := Nat.mul_le_mul_right _ hbefore
          rw [Nat.succ_mul] at this
          omega
        rw [show (j.store now i block).buf = Extent.writeAt 0 (i * blockSize) block j.buf from rfl,
          Extent.getElem?_writeAt_of_lt 0 block j.buf hlt,
          List.getElem?_eq_getElem (show k * blockSize + m < j.buf.length by omega)]
        rfl
      · refine Extent.getElem?_writeAt_of_le 0 block j.buf ?_
        have : (i + 1) * blockSize ≤ k * blockSize := Nat.mul_le_mul_right _ hbehind
        rw [Nat.succ_mul] at this
        omega

theorem Reached.recorded (h : Reached index size j sent blocks) : j.Recorded sent blocks := by
  induction h with
  | new h => exact .new h
  | pump h write hp hok ih =>
    obtain ⟨p, hp', hpumps⟩ := ih.sound.pump write
    rw [hp] at hp'
    cases hp'
    exact ih.pump hpumps hok
  | choke h ih => exact ih.choke
  | stored h now start block hb ih =>
    rcases ih.sound.onBlock now start block with ⟨i, hfit, heq⟩ | ⟨-, heq⟩
    · rw [hb] at heq
      cases heq
      have hi : start / blockSize = i := by rw [hfit.start, Nat.mul_div_cancel i (by decide)]
      rw [hi]
      exact ih.store hfit now
    · rw [hb] at heq
      cases heq
  | ignored h now start block hb ih =>
    rcases ih.sound.onBlock now start block with ⟨i, hfit, heq⟩ | ⟨-, heq⟩
    · rw [hb] at heq
      cases heq
    · rw [hb] at heq
      cases heq
      exact ih

/-- The blocks one after another, up to the `n`-th, are the first bytes of the piece. -/
theorem Recorded.take_buf (h : j.Recorded sent blocks) (hall : ∀ i < j.numBlocks, j.IsFilled i)
    {n : Nat} (hn : n ≤ j.numBlocks) :
    j.buf.take (n * blockSize) = (List.range n).flatMap fun i => (blocks i).getD [] := by
  induction n with
  | zero => simp
  | succ n ih =>
    obtain ⟨b, hb⟩ := Option.isSome_iff_exists.mp ((h.filled n).mp (hall n (by omega)))
    have hlen := h.length n b hb
    have hblock : (j.buf.drop (n * blockSize)).take blockSize = b := by
      refine List.ext_getElem? fun k => ?_
      rw [List.getElem?_take, List.getElem?_drop]
      have hbuf := h.sound.buf
      by_cases hk : k < b.length
      · rw [if_pos (by omega), h.bytes n b hb k hk]
      · rw [List.getElem?_eq_none (Nat.le_of_not_lt hk)]
        split
        · exact List.getElem?_eq_none (by omega)
        · rfl
    rw [List.range_succ, List.flatMap_append, ← ih (by omega), List.flatMap_singleton, hb,
      Option.getD_some, Nat.succ_mul, List.take_add, hblock]

theorem Recorded.done (h : j.Recorded sent blocks) (hdone : j.isDone = true) :
    ∀ i < j.numBlocks, j.IsFilled i := by
  have hcard : j.stored.card = (Finset.range j.numBlocks).card := by
    rw [← h.sound.received, Finset.card_range]
    simpa [isDone] using hdone
  have hall : j.stored = Finset.range j.numBlocks :=
    Finset.eq_of_subset_of_card_le (Finset.filter_subset _ _) hcard.ge
  intro i hi
  exact mem_stored.mp (hall ▸ Finset.mem_range.mpr hi)

theorem job_keeps_count (h : Reached index size j sent blocks) :
    (j.outstanding = j.pending.card ∧ j.outstanding ≤ pipelineDepth ∧
      j.received = j.stored.card ∧ ∀ i < j.next, j.IsRequested i ∨ j.IsFilled i) ∧
    (∀ write, ∃ p, j.pump write = some p ∧
      (p.result = .ok () → p.job.isDone = false → p.job.pending.Nonempty)) ∧
    (sent.map Request.start).Nodup ∧
    (∀ now start block, (j.onBlock now start block).isSome) ∧
    (j.isDone = true → (∀ i < j.numBlocks, (blocks i).isSome) ∧
      j.buf = (List.range j.numBlocks).flatMap fun i => (blocks i).getD []) := by
  have hr := h.recorded
  refine ⟨⟨hr.sound.outstanding, hr.sound.window, hr.sound.received, hr.sound.cursor⟩, ?_, hr.once,
    ?_, ?_⟩
  · intro write
    obtain ⟨p, hp, hpumps⟩ := hr.sound.pump write
    exact ⟨p, hp, hpumps.busy⟩
  · intro now start block
    rcases hr.sound.onBlock now start block with ⟨i, -, heq⟩ | ⟨-, heq⟩ <;> rw [heq] <;> rfl
  · intro hdone
    have hall := hr.done hdone
    refine ⟨fun i hi => (hr.filled i).mp (hall i hi), ?_⟩
    have hlen : j.buf.length ≤ j.numBlocks * blockSize := by
      rw [hr.sound.buf, numBlocks, hr.sound.filled]
      unfold blockSize
      omega
    rw [← hr.take_buf hall (Nat.le_refl _), List.take_of_length_le hlen]

/-- A piece of three bytes: its only block comes unasked, after a choke. -/
def threeBytes : Job := ⟨7, 3, [1, 2, 3], [false], [true], 1, 0, 0, 5⟩

theorem job_keeps_count_threeBytes : threeBytes.isDone = true ∧
    threeBytes.buf = (List.range threeBytes.numBlocks).flatMap fun i =>
      (Function.update (fun _ => none) (0 / blockSize) (some [1, 2, 3]) i).getD [] := by
  have hstart : Reached 7 3 ⟨7, 3, [0, 0, 0], [false], [false], 0, 0, 0, 0⟩ [] fun _ => none :=
    .new (show Job.new 7 3 0 = .ok _ by decide)
  have hrun : Reached 7 3 threeBytes [] _ := hstart.choke.stored 5 0 [1, 2, 3] (by decide)
  exact ⟨rfl, ((job_keeps_count hrun).2.2.2.2 rfl).2⟩

end Job

end Rsurl.Bittorrent
