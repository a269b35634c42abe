import Rsurl.Hpack.Sync
import Rsurl.Library.Trace

/-!
# Size updates that are owed

What an encoder owes the peer after any number of changes of its table size: the smallest size in
between, and the last one.
-/

namespace Rsurl.Hpack

open Library Text

namespace Encoder

/-- The smallest size in effect since the last update was sent. -/
def floor (e : Encoder) : Nat := e.pendingMinTableSize.getD e.maxDynTableSize

/-- Both sizes are owed or none, and the table fits the smaller one. -/
structure Sound (e : Encoder) : Prop where
  owed : e.pendingMaxTableSizeSignal = none ∧ e.pendingMinTableSize = none ∨
    e.pendingMaxTableSizeSignal = some e.maxDynTableSize ∧ e.pendingMinTableSize = some e.floor
  floor_le : e.floor ≤ e.maxDynTableSize
  bounded : e.maxDynTableSize ≤ dynTableCapMax
  consistent : Fifo.Consistent entrySize e.table
  fits : e.dynTableSize ≤ e.floor

variable {e : Encoder}

theorem Sound.floor_of_none (h : e.Sound) (hnone : e.pendingMaxTableSizeSignal = none) :
    e.floor = e.maxDynTableSize := by
  rcases h.owed with ⟨-, hmin⟩ | ⟨hsome, -⟩
  · rw [floor, hmin, Option.getD_none]
  · rw [hsome] at hnone
    cases hnone

theorem sound_new : Sound .new where
  owed := .inl ⟨rfl, rfl⟩
  floor_le := le_rfl
  bounded := le_rfl
  consistent := rfl
  fits := Nat.zero_le _

/-- The encoder after sizes the smallest of which is `m` and the last `n`. -/
def settle (e : Encoder) (m n : Nat) : Encoder :=
  { e.withTable (Fifo.evict entrySize m 0 e.table) with
    maxDynTableSize := n
    pendingMaxTableSizeSignal := some n
    pendingMinTableSize := some (min e.floor m) }

/-- A size that is the one in effect changes nothing, unless a size is owed. -/
def Ignores (e : Encoder) (n : Nat) : Prop :=
  n = e.maxDynTableSize ∧ e.pendingMaxTableSizeSignal = none

instance (e : Encoder) (n : Nat) : Decidable (e.Ignores n) := inferInstanceAs (Decidable (_ ∧ _))

def capped (n : Nat) : Nat := min n dynTableCapMax

theorem setPeerMaxTableSize_eq (e : Encoder) (n : Nat) :
    e.setPeerMaxTableSize n =
      if e.Ignores (capped n) then e else e.settle (capped n) (capped n) := by
  by_cases h : e.Ignores (capped n)
  · rw [if_pos h]
    exact if_pos h
  · rw [if_neg h]
    exact if_neg h

theorem settle_settle (e : Encoder) (m n m' n' : Nat) :
    (e.settle m n).settle m' n' = e.settle (min m m') n' := by
  have htable : (e.settle m n).table = Fifo.evict entrySize m 0 e.table := rfl
  have hfloor : (e.settle m n).floor = min e.floor m := rfl
  unfold settle at *
  rw [htable, hfloor, Fifo.evict_evict, min_assoc]
  rfl

/-- Only what is below the floor counts. -/
theorem Sound.evict_floor (h : e.Sound) (m : Nat) :
    Fifo.evict entrySize (min e.floor m) 0 e.table = Fifo.evict entrySize m 0 e.table := by
  have hfloor : Fifo.evict entrySize e.floor 0 e.table = e.table := Fifo.evict_of_fits h.fits
  rw [← Fifo.evict_evict, hfloor]

theorem Sound.settle_floor (h : e.Sound) (m n : Nat) :
    e.settle m n = e.settle (min e.floor m) n := by
  unfold Encoder.settle
  rw [h.evict_floor, ← min_assoc, min_self]

theorem Sound.settle (h : e.Sound) {m n : Nat} (hmn : m ≤ n) (hn : n ≤ dynTableCapMax) :
    (e.settle m n).Sound where
  owed := .inr ⟨rfl, rfl⟩
  floor_le := (min_le_right _ _).trans hmn
  bounded := hn
  consistent := h.consistent.evict m 0
  fits := by
    have hfits := h.consistent.evict_fits (Nat.zero_le (min e.floor m))
    rwa [h.evict_floor] at hfits

theorem Sound.setPeerMaxTableSize (h : e.Sound) (n : Nat) : (e.setPeerMaxTableSize n).Sound := by
  rw [setPeerMaxTableSize_eq]
  split
  · exact h
  · exact h.settle le_rfl (min_le_right _ _)

/-! ## Header blocks -/

theorem Sound.flushSignal (h : e.Sound) (out : Bytes) :
    (e.flushSignal out).1.Sound ∧
      (e.flushSignal out).1.floor = (e.flushSignal out).1.maxDynTableSize := by
  unfold Encoder.flushSignal
  split
  · rename_i hnone
    exact ⟨h, h.floor_of_none hnone⟩
  · exact ⟨⟨.inl ⟨rfl, rfl⟩, le_rfl, h.bounded, h.consistent, h.fits.trans h.floor_le⟩, rfl⟩

theorem Sound.insert (h : e.Sound) (hfloor : e.floor = e.maxDynTableSize) (name value : String) :
    (e.insert name value).Sound := by
  have hfits := h.consistent.insert_fits e.maxDynTableSize (name, value)
  rw [← hfloor] at hfits
  refine ⟨h.owed, h.floor_le, h.bounded, h.consistent.insert _ _, ?_⟩
  rw [hfloor] at hfits
  change (Fifo.insert entrySize e.maxDynTableSize (name, value) e.table).2 ≤ e.floor
  rwa [hfloor]

theorem Sound.encodeHeader (h : e.Sound) (out : Bytes) (name value : String) :
    (e.encodeHeader out name value).1.Sound := by
  obtain ⟨hflush, hfloor⟩ := h.flushSignal out
  unfold Encoder.encodeHeader
  generalize e.flushSignal out = flushed at hflush hfloor
  obtain ⟨e', out'⟩ := flushed
  dsimp only at hflush hfloor ⊢
  split
  · exact hflush
  · split
    · exact hflush.insert hfloor name value
    · exact hflush.insert hfloor name value

theorem Sound.encodeBlock (h : e.Sound) (fields : List Header) : (e.encodeBlock fields).1.Sound := by
  unfold Encoder.encodeBlock
  generalize ([] : Bytes) = out
  induction fields generalizing e out with
  | nil => exact h
  | cons f rest ih => exact ih (h.encodeHeader out f.1 f.2) _

/-! ## Many sizes -/

/-- The smallest of the sizes and of what is there already. -/
def least (m : Nat) (ns : List Nat) : Nat := ns.foldr (fun n k => min (capped n) k) m

theorem least_min (a b : Nat) (ns : List Nat) : least (min a b) ns = min a (least b ns) := by
  induction ns with
  | nil => rfl
  | cons n ns ih =>
    change min (capped n) (least (min a b) ns) = min a (min (capped n) (least b ns))
    rw [ih]
    exact min_left_comm _ _ _

theorem le_least {m k : Nat} {ns : List Nat} :
    k ≤ least m ns ↔ k ≤ m ∧ ∀ n ∈ ns, k ≤ capped n := by
  induction ns with
  | nil => simp [least]
  | cons n ns ih =>
    change k ≤ min (capped n) (least m ns) ↔ _
    rw [le_min_iff, ih, List.forall_mem_cons]
    exact and_left_comm

theorem least_le_capped {m n : Nat} {ns : List Nat} (h : n ∈ ns) : least m ns ≤ capped n :=
  (le_least.mp le_rfl).2 n h

/-- After any sizes the encoder owes the smallest and the last, unless it could ignore them all. -/
theorem Sound.foldl_setPeerMaxTableSize (h : e.Sound) (ns : List Nat) :
    ns.foldl Encoder.setPeerMaxTableSize e =
      if ∀ n ∈ ns, e.Ignores (capped n) then e
      else e.settle (least e.floor ns) (capped (Changes.lastOf 0 ns)) := by
  induction ns generalizing e with
  | nil => rw [if_pos (by simp)]; rfl
  | cons n ns ih =>
    rw [List.foldl_cons, setPeerMaxTableSize_eq, Changes.lastOf_cons]
    have hcons : least e.floor (n :: ns) = min (capped n) (least e.floor ns) := rfl
    by_cases hn : e.Ignores (capped n)
    · -- the size in effect is above the floor
      have hleast : least e.floor (n :: ns) = least e.floor ns := by
        rw [hcons, hn.1]
        exact min_eq_right ((le_least.mp le_rfl).1.trans h.floor_le)
      rw [if_pos hn, ih h, hleast]
      cases ns with
      | nil => rw [if_pos (by simp), if_pos (by simpa using hn)]
      | cons k rest =>
        rw [Changes.lastOf_cons, Changes.lastOf_cons]
        exact if_congr ⟨fun hall => List.forall_mem_cons.mpr ⟨hn, hall⟩,
          fun hall => (List.forall_mem_cons.mp hall).2⟩ rfl rfl
    · have hnot : ¬∀ k ∈ n :: ns, e.Ignores (capped k) := fun hall => hn (hall n List.mem_cons_self)
      rw [if_neg hn, if_neg hnot]
      cases ns with
      | nil =>
        rw [List.foldl_nil, Changes.lastOf_nil, h.settle_floor, hcons, min_comm]
        rfl
      | cons k rest =>
        have howed : ¬∀ j ∈ k :: rest, (e.settle (capped n) (capped n)).Ignores (capped j) := by
          intro hall
          cases (hall k List.mem_cons_self).2
        have hfloor : (e.settle (capped n) (capped n)).floor = min (capped n) e.floor :=
          min_comm _ _
        have hsound : (e.settle (capped n) (capped n)).Sound := h.settle le_rfl (min_le_right _ _)
        rw [ih hsound, if_neg howed, settle_settle, hfloor, least_min,
          ← min_assoc, min_self, ← hcons, Changes.lastOf_cons, Changes.lastOf_cons]

/-! ## Told of every size, or of the last one -/

theorem Sound.settle_eq_settle_iff (h : e.Sound) {m m' n : Nat} :
    e.settle m n = e.settle m' n ↔ min e.floor m = min e.floor m' := by
  constructor
  · intro heq
    exact Option.some.inj (congrArg pendingMinTableSize heq)
  · intro heq
    rw [h.settle_floor, heq, ← h.settle_floor]

theorem Sound.settle_eq_self_iff (h : e.Sound) {m n : Nat} :
    e.settle m n = e ↔ e.pendingMaxTableSizeSignal ≠ none ∧ n = e.maxDynTableSize ∧ e.floor ≤ m := by
  constructor
  · intro heq
    have hsignal : some n = e.pendingMaxTableSizeSignal := congrArg pendingMaxTableSizeSignal heq
    have hfloor : min e.floor m = e.floor := congrArg floor heq
    exact ⟨by rw [← hsignal]; simp, congrArg maxDynTableSize heq, min_eq_left_iff.mp hfloor⟩
  · rintro ⟨hsignal, rfl, hle⟩
    obtain ⟨hnone, -⟩ | ⟨hsome, hmin⟩ := h.owed
    · exact absurd hnone hsignal
    · have hevict : Fifo.evict entrySize m 0 e.table = e.table :=
        Fifo.evict_of_fits (h.fits.trans hle)
      unfold Encoder.settle
      rw [hevict, min_eq_left hle, ← hmin, ← hsome]
      rfl

/-- An encoder that is told of the last of these sizes, where it differs from `cur`, misses nothing:
it could ignore them all, or none is below the last one and what is owed already. -/
def MissesNothing (e : Encoder) (cur : Nat) (vs : List Nat) : Prop :=
  (∀ n ∈ Changes.changes cur vs, e.Ignores (capped n)) ∨
    (∀ n ∈ Changes.changes cur vs, min e.floor (capped (Changes.lastOf cur vs)) ≤ capped n) ∧
    ¬e.Ignores (capped (Changes.lastOf cur vs)) ∧
    (Changes.lastOf cur vs = cur → e.pendingMaxTableSizeSignal ≠ none ∧
      capped cur = e.maxDynTableSize)

theorem Sound.missesNothing_iff (h : e.Sound) (cur : Nat) (vs : List Nat) :
    (Changes.changes cur vs).foldl Encoder.setPeerMaxTableSize e =
        (if Changes.lastOf cur vs ≠ cur then e.setPeerMaxTableSize (Changes.lastOf cur vs) else e) ↔
      e.MissesNothing cur vs := by
  have hlast := Changes.lastOf_changes cur vs
  rw [h.foldl_setPeerMaxTableSize, setPeerMaxTableSize_eq]
  unfold MissesNothing
  by_cases hall : ∀ n ∈ Changes.changes cur vs, e.Ignores (capped n)
  · rw [if_pos hall]
    refine iff_of_true ?_ (.inl hall)
    split
    · rename_i hne
      have hmem := @Changes.lastOf_mem _ cur _ (Changes.changes_ne_nil hne)
      rw [hlast] at hmem
      rw [if_pos (hall _ hmem)]
    · rfl
  · have hne : Changes.changes cur vs ≠ [] := fun hnil => hall (by simp [hnil])
    have hmem : Changes.lastOf cur vs ∈ Changes.changes cur vs :=
      hlast ▸ @Changes.lastOf_mem _ cur _ hne
    have hpast : Changes.lastOf 0 (Changes.changes cur vs) = Changes.lastOf cur vs :=
      (Changes.lastOf_congr cur hne).trans hlast
    rw [if_neg hall, or_iff_right hall, hpast]
    generalize Changes.lastOf cur vs = last at hmem
    generalize Changes.changes cur vs = ns at hmem
    have hleast : least e.floor ns ≤ e.floor := (le_least.mp le_rfl).1
    by_cases hcur : last = cur
    · subst hcur
      rw [if_neg (by simp), h.settle_eq_self_iff]
      constructor
      · rintro ⟨hsignal, hmax, hfloor⟩
        refine ⟨fun n hn => ?_, fun hignores => hsignal hignores.2, fun _ => ⟨hsignal, hmax⟩⟩
        exact (min_le_left _ _).trans (hfloor.trans (least_le_capped hn))
      · rintro ⟨hns, -, hreturn⟩
        obtain ⟨hsignal, hmax⟩ := hreturn rfl
        refine ⟨hsignal, hmax, le_least.mpr ⟨le_rfl, fun n hn => ?_⟩⟩
        rw [hmax, min_eq_left h.floor_le] at hns
        exact hns n hn
    · rw [if_pos hcur]
      by_cases hignores : e.Ignores (capped last)
      · rw [if_pos hignores, h.settle_eq_self_iff]
        exact iff_of_false (fun hself => hself.1 hignores.2) fun hmisses => hmisses.2.1 hignores
      · rw [if_neg hignores, h.settle_eq_settle_iff, min_eq_right hleast]
        constructor
        · intro heq
          exact ⟨(le_least.mp heq.ge).2, hignores, fun heq => absurd heq hcur⟩
        · rintro ⟨hns, -, -⟩
          exact le_antisymm (le_min hleast (least_le_capped hmem))
            (le_least.mpr ⟨min_le_left _ _, hns⟩)

end Encoder

/-! ## Whole histories -/

def Op.apply (e : Encoder) : Op → Encoder
  | .setPeerMaxTableSize n => e.setPeerMaxTableSize n
  | .encodeBlock fields => (e.encodeBlock fields).1

theorem Op.sound (ops : List Op) {e : Encoder} (h : e.Sound) : (ops.foldl Op.apply e).Sound := by
  induction ops generalizing e with
  | nil => exact h
  | cons op ops ih =>
    apply ih
    cases op with
    | setPeerMaxTableSize n => exact h.setPeerMaxTableSize n
    | encodeBlock fields => exact h.encodeBlock fields

/-- A shrink that grows again within one frame is missed; a growth is not. -/
example : ¬Encoder.new.MissesNothing 4096 [0, 2048] ∧ Encoder.new.MissesNothing 4096 [2048] ∧
    Encoder.new.MissesNothing 4096 [5000, 6000] := by
  unfold Encoder.MissesNothing
  decide

end Rsurl.Hpack
