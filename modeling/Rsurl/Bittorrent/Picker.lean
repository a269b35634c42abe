import Rsurl.Error

/-!
# The piece picker

`availability` counts, for every piece, the peers that have it, and `pick` takes the rarest piece
that is wanted. Of equally rare ones it takes the first.
-/

/-!
## Bitfields

Which pieces somebody has, a bit each, from the high bit of the first byte on. The spare bits of the
last byte are clear in every bitfield, so counting the ones of the bytes counts the pieces.
-/

namespace Rsurl.Bittorrent

/-- The bit of `b` that stands for a piece with index `i` modulo 8. -/
def maskOf (i : Nat) : UInt8 := 0x80 >>> UInt8.ofNat (i % 8)

def bitAt (bits : Bytes) (i : Nat) : Bool := (bits[i / 8]?.getD 0) &&& maskOf i ≠ 0

def countOnes (b : UInt8) : Nat := (List.range 8).countP fun i => b &&& maskOf i ≠ 0

structure Bitfield where
  bits : Bytes
  len : Nat
  sized : bits.length = (len + 7) / 8
  spare : ∀ i, len ≤ i → bitAt bits i = false

theorem bitAt_replicate (n i : Nat) : bitAt (List.replicate n 0) i = false := by
  have hbyte : (List.replicate n (0 : UInt8))[i / 8]?.getD 0 = 0 := by
    rw [List.getElem?_replicate]
    split <;> rfl
  simp [bitAt, hbyte]

/-! ## Changing one bit -/

theorem toNat_maskOf (i : Nat) : (maskOf i).toNat = 2 ^ (7 - i % 8) := by
  have hall : ∀ x : Fin 8, (0x80 >>> UInt8.ofNat x : UInt8).toNat = 2 ^ (7 - (x : Nat)) := by decide
  exact hall ⟨i % 8, Nat.mod_lt i (by decide)⟩

theorem and_maskOf (b : UInt8) (i : Nat) :
    decide (b &&& maskOf i ≠ 0) = b.toNat.testBit (7 - i % 8) := by
  have hiff : b &&& maskOf i ≠ 0 ↔ b.toNat.testBit (7 - i % 8) = true := by
    rw [ne_eq, ← UInt8.toNat_inj, UInt8.toNat_and, toNat_maskOf, Nat.and_two_pow]
    cases b.toNat.testBit (7 - i % 8) <;> simp
  rw [Bool.eq_iff_iff, decide_eq_true_eq, hiff]

theorem bitAt_eq (bits : Bytes) (i : Nat) :
    bitAt bits i = (bits[i / 8]?.getD 0).toNat.testBit (7 - i % 8) := and_maskOf _ i

/-- Two indices with the same byte and the same bit are the same. -/
theorem index_inj {i j : Nat} (hbyte : i / 8 = j / 8) (hbit : 7 - i % 8 = 7 - j % 8) : i = j := by
  omega

theorem bitAt_set {bits : Bytes} {i : Nat} (hi : i / 8 < bits.length) (j : Nat) :
    bitAt (bits.set (i / 8) ((bits[i / 8]?.getD 0) ||| maskOf i)) j =
      (bitAt bits j || decide (j = i)) := by
  simp only [bitAt_eq]
  by_cases hbyte : j / 8 = i / 8
  · rw [hbyte, List.getElem?_set_self hi, Option.getD_some, UInt8.toNat_or, toNat_maskOf,
      Nat.testBit_or, Nat.testBit_two_pow]
    congr 1
    by_cases hji : j = i
    · simp [hji]
    · have hbit : 7 - i % 8 ≠ 7 - j % 8 := fun h => hji (index_inj hbyte h.symm)
      simp [hji, hbit]
  · rw [List.getElem?_set_ne (Ne.symm hbyte)]
    have hji : j ≠ i := by
      rintro rfl
      exact hbyte rfl
    simp [hji]

theorem testBit_not (b : UInt8) {k : Nat} (hk : k < 8) :
    (~~~b).toNat.testBit k = !b.toNat.testBit k := by
  have hnot : (~~~b).toNat = 2 ^ 8 - (b.toNat + 1) := by
    rw [UInt8.toNat_not, Nat.add_comm, ← Nat.sub_sub]
    rfl
  rw [hnot, Nat.testBit_two_pow_sub_succ b.toNat_lt, decide_eq_true hk, Bool.true_and]

theorem bitAt_unset {bits : Bytes} {i : Nat} (hi : i / 8 < bits.length) (j : Nat) :
    bitAt (bits.set (i / 8) ((bits[i / 8]?.getD 0) &&& ~~~maskOf i)) j =
      (bitAt bits j && !decide (j = i)) := by
  simp only [bitAt_eq]
  by_cases hbyte : j / 8 = i / 8
  · rw [hbyte, List.getElem?_set_self hi, Option.getD_some, UInt8.toNat_and, Nat.testBit_and,
      testBit_not _ (by omega), toNat_maskOf, Nat.testBit_two_pow]
    congr 2
    by_cases hji : j = i
    · simp [hji]
    · have hbit : 7 - i % 8 ≠ 7 - j % 8 := fun h => hji (index_inj hbyte h.symm)
      simp [hji, hbit]
  · rw [List.getElem?_set_ne (Ne.symm hbyte)]
    have hji : j ≠ i := by
      rintro rfl
      exact hbyte rfl
    simp [hji]

namespace Bitfield

def new (len : Nat) : Bitfield where
  bits := List.replicate ((len + 7) / 8) 0
  len := len
  sized := List.length_replicate
  spare i _ := bitAt_replicate _ i

def has (bf : Bitfield) (i : Nat) : Bool := if bf.len ≤ i then false else bitAt bf.bits i

variable (bf : Bitfield) (i j : Nat)

theorem byte_lt (h : i < bf.len) : i / 8 < bf.bits.length := by
  rw [bf.sized]
  omega

def set : Bitfield :=
  if h : i < bf.len then
    { bits := bf.bits.set (i / 8) ((bf.bits[i / 8]?.getD 0) ||| maskOf i)
      len := bf.len
      sized := List.length_set.trans bf.sized
      spare := fun j hj => by
        rw [bitAt_set (bf.byte_lt i h), bf.spare j hj, decide_eq_false (by omega)]
        rfl }
  else bf

def unset : Bitfield :=
  if h : i < bf.len then
    { bits := bf.bits.set (i / 8) ((bf.bits[i / 8]?.getD 0) &&& ~~~maskOf i)
      len := bf.len
      sized := List.length_set.trans bf.sized
      spare := fun j hj => by
        rw [bitAt_unset (bf.byte_lt i h), bf.spare j hj]
        rfl }
  else bf

def count : Nat := (bf.bits.map countOnes).sum

def isComplete : Bool := bf.count = bf.len

@[simp] theorem len_new (len : Nat) : (new len).len = len := rfl

@[simp] theorem len_set : (bf.set i).len = bf.len := by
  unfold set
  split <;> rfl

@[simp] theorem len_unset : (bf.unset i).len = bf.len := by
  unfold unset
  split <;> rfl

/-- The bounds check never decides. -/
theorem has_eq : bf.has i = bitAt bf.bits i := by
  unfold has
  split
  · rename_i h
    exact (bf.spare i h).symm
  · rfl

theorem lt_of_has (h : bf.has i = true) : i < bf.len := by
  by_contra hi
  rw [has, if_pos (Nat.le_of_not_lt hi)] at h
  cases h

@[simp] theorem has_new (len : Nat) : (new len).has i = false := by
  rw [has_eq]
  exact bitAt_replicate _ i

theorem has_set : (bf.set i).has j = (bf.has j || (decide (j = i) && decide (i < bf.len))) := by
  simp only [has_eq]
  unfold set
  split
  · rename_i h
    rw [bitAt_set (bf.byte_lt i h), decide_eq_true h, Bool.and_true]
  · rename_i h
    rw [decide_eq_false h, Bool.and_false, Bool.or_false]

theorem has_unset : (bf.unset i).has j = (bf.has j && !decide (j = i)) := by
  simp only [has_eq]
  unfold unset
  split
  · rename_i h
    rw [bitAt_unset (bf.byte_lt i h)]
  · rename_i h
    by_cases hji : j = i
    · rw [hji, bf.spare i (Nat.le_of_not_lt h)]
      rfl
    · simp [hji]

/-! ## Counting -/

theorem countOnes_sum (bits : Bytes) :
    (bits.map countOnes).sum = (List.range (8 * bits.length)).countP (bitAt bits) := by
  induction bits with
  | nil => rfl
  | cons b rest ih =>
    have hhead : (List.range 8).countP (bitAt (b :: rest)) = countOnes b := by
      refine List.countP_congr fun i hi => ?_
      have hi8 : i < 8 := List.mem_range.mp hi
      simp [bitAt, Nat.div_eq_of_lt hi8]
    have htail : (List.range (8 * rest.length)).countP (bitAt (b :: rest) ∘ (8 + ·)) =
        (List.range (8 * rest.length)).countP (bitAt rest) := by
      refine List.countP_congr fun i _ => ?_
      have hdiv : (8 + i) / 8 = i / 8 + 1 := by omega
      have hmod : (8 + i) % 8 = i % 8 := by omega
      rw [Function.comp_apply, bitAt, bitAt, maskOf, maskOf, hdiv, hmod, List.getElem?_cons_succ]
    rw [List.map_cons, List.sum_cons, ih, List.length_cons, Nat.mul_succ, Nat.add_comm (8 * _),
      List.range_add, List.countP_append, List.countP_map, hhead, htail]

theorem count_eq : bf.count = (List.range bf.len).countP bf.has := by
  obtain ⟨k, hk⟩ : ∃ k, 8 * bf.bits.length = bf.len + k :=
    Nat.exists_eq_add_of_le (by rw [bf.sized]; omega)
  have hhas : bf.has = bitAt bf.bits := funext bf.has_eq
  have hspare : (List.range k).countP (bitAt bf.bits ∘ (bf.len + ·)) = 0 := by
    rw [List.countP_eq_zero]
    intro i _
    rw [Function.comp_apply, bf.spare _ (Nat.le_add_right _ _)]
    exact Bool.false_ne_true
  rw [count, countOnes_sum, hk, List.range_add, List.countP_append, List.countP_map, hspare, hhas,
    Nat.add_zero]

theorem isComplete_iff : bf.isComplete = true ↔ ∀ i, i < bf.len → bf.has i = true := by
  have hlen : bf.len = (List.range bf.len).length := List.length_range.symm
  rw [isComplete, decide_eq_true_eq, count_eq]
  conv_lhs => rhs; rw [hlen]
  rw [List.countP_eq_length]
  exact ⟨fun h i hi => h i (List.mem_range.mpr hi), fun h i hi => h i (List.mem_range.mp hi)⟩

end Bitfield

end Rsurl.Bittorrent

namespace Rsurl.Bittorrent

/-- The counts are `u32`s. -/
structure Picker where
  availability : List Nat
  deriving DecidableEq, Repr

namespace Picker

def new (numPieces : Nat) : Picker := ⟨List.replicate numPieces 0⟩

def addHave (p : Picker) (index : Nat) : Picker :=
  ⟨p.availability.modify index fun c => (c + 1) % 2 ^ 32⟩

def addBitfield (p : Picker) (bf : Bitfield) : Picker :=
  (List.range bf.len).foldl (fun p i => if bf.has i then p.addHave i else p) p

/-- A peer left. -/
def removeBitfield (p : Picker) (bf : Bitfield) : Picker :=
  (List.range bf.len).foldl
    (fun p i => if bf.has i then ⟨p.availability.modify i fun c => c - 1⟩ else p) p

/-- We lack the piece, the peer has it, and nobody is fetching it. -/
def Wanted (ours peerHas : Bitfield) (exclude : Finset Nat) (i : Nat) : Prop :=
  ours.has i = false ∧ peerHas.has i = true ∧ i ∉ exclude

instance (ours peerHas : Bitfield) (exclude : Finset Nat) (i : Nat) :
    Decidable (Wanted ours peerHas exclude i) :=
  inferInstanceAs (Decidable (_ ∧ _ ∧ _))

def rarity (p : Picker) (i : Nat) : Nat := p.availability[i]?.getD 0

def better (p : Picker) (ours peerHas : Bitfield) (exclude : Finset Nat)
    (best : Option (Nat × Nat)) (i : Nat) : Option (Nat × Nat) :=
  if Wanted ours peerHas exclude i then
    if best.all fun b => p.rarity i < b.1 then some (p.rarity i, i) else best
  else best

def pick (p : Picker) (ours peerHas : Bitfield) (exclude : Finset Nat) : Option Nat :=
  ((List.range p.availability.length).foldl (p.better ours peerHas exclude) none).map (·.2)

/-! ## What is picked -/

variable {p : Picker} {ours peerHas : Bitfield} {exclude : Finset Nat}

/-- The best of the first `n` pieces. -/
def Best (p : Picker) (ours peerHas : Bitfield) (exclude : Finset Nat) (n : Nat) :
    Option (Nat × Nat) → Prop
  | none => ∀ j, j < n → ¬Wanted ours peerHas exclude j
  | some (c, i) => i < n ∧ Wanted ours peerHas exclude i ∧ c = p.rarity i ∧
    ∀ j, j < n → Wanted ours peerHas exclude j → c < p.rarity j ∨ c = p.rarity j ∧ i ≤ j

theorem best_better {n : Nat} {best : Option (Nat × Nat)} (h : Best p ours peerHas exclude n best) :
    Best p ours peerHas exclude (n + 1) (p.better ours peerHas exclude best n) := by
  unfold better
  by_cases hw : Wanted ours peerHas exclude n
  · rw [if_pos hw]
    cases best with
    | none =>
      refine ⟨Nat.lt_succ_self n, hw, rfl, fun j hj hwj => ?_⟩
      rcases Nat.lt_succ_iff_lt_or_eq.mp hj with hj | rfl
      · exact absurd hwj (h j hj)
      · exact .inr ⟨rfl, le_rfl⟩
    | some b =>
      obtain ⟨c, i⟩ := b
      obtain ⟨hin, hwi, hc, hleast⟩ := h
      by_cases hrarer : p.rarity n < c
      · rw [if_pos (by simpa using hrarer)]
        refine ⟨Nat.lt_succ_self n, hw, rfl, fun j hj hwj => ?_⟩
        rcases Nat.lt_succ_iff_lt_or_eq.mp hj with hj | rfl
        · have := hleast j hj hwj
          omega
        · exact .inr ⟨rfl, le_rfl⟩
      · rw [if_neg (by simpa using hrarer)]
        refine ⟨Nat.lt_succ_of_lt hin, hwi, hc, fun j hj hwj => ?_⟩
        rcases Nat.lt_succ_iff_lt_or_eq.mp hj with hj | rfl
        · exact hleast j hj hwj
        · omega
  · rw [if_neg hw]
    have hlast {j : Nat} (hj : j < n + 1) (hwj : Wanted ours peerHas exclude j) : j < n := by
      rcases Nat.lt_succ_iff_lt_or_eq.mp hj with hj | rfl
      · exact hj
      · exact absurd hwj hw
    cases best with
    | none => exact fun j hj hwj => h j (hlast hj hwj) hwj
    | some b =>
      obtain ⟨hin, hwi, hc, hleast⟩ := h
      exact ⟨Nat.lt_succ_of_lt hin, hwi, hc, fun j hj hwj => hleast j (hlast hj hwj) hwj⟩

theorem best_range (p : Picker) (ours peerHas : Bitfield) (exclude : Finset Nat) (n : Nat) :
    Best p ours peerHas exclude n ((List.range n).foldl (p.better ours peerHas exclude) none) := by
  induction n with
  | zero => exact fun j hj => absurd hj (Nat.not_lt_zero j)
  | succ n ih =>
    rw [List.range_succ, List.foldl_append]
    exact best_better ih

/-- The piece picked is wanted, and it is the first of the rarest. -/
theorem pick_some {i : Nat} (h : p.pick ours peerHas exclude = some i) :
    i < p.availability.length ∧ Wanted ours peerHas exclude i ∧
      ∀ j, j < p.availability.length → Wanted ours peerHas exclude j →
        p.rarity i < p.rarity j ∨ p.rarity i = p.rarity j ∧ i ≤ j := by
  obtain ⟨⟨c, _⟩, hfold, rfl⟩ := Option.map_eq_some_iff.mp h
  have hbest := best_range p ours peerHas exclude p.availability.length
  rw [hfold] at hbest
  obtain ⟨hlt, hwanted, rfl, hleast⟩ := hbest
  exact ⟨hlt, hwanted, hleast⟩

/-- Nothing is picked only if nothing is wanted. -/
theorem pick_none (h : p.pick ours peerHas exclude = none) {j : Nat}
    (hj : j < p.availability.length) : ¬Wanted ours peerHas exclude j := by
  have hbest := best_range p ours peerHas exclude p.availability.length
  rw [Option.map_eq_none_iff.mp h] at hbest
  exact hbest j hj

/-! ## The counts -/

theorem availability_addHave (p : Picker) (i j : Nat) : (p.addHave i).availability[j]? =
    p.availability[j]?.map fun c => if i = j then (c + 1) % 2 ^ 32 else c :=
  List.getElem?_modify ..

theorem availability_fold (bf : Bitfield) (f : Nat → Nat) (n : Nat) (p : Picker) (j : Nat) :
    ((List.range n).foldl
      (fun p i => if bf.has i then ⟨p.availability.modify i f⟩ else p) p).availability[j]? =
    p.availability[j]?.map fun c => if j < n ∧ bf.has j = true then f c else c := by
  induction n with
  | zero => simp
  | succ n ih =>
    rw [List.range_succ, List.foldl_append, List.foldl_cons, List.foldl_nil]
    by_cases hn : bf.has n = true
    · rw [if_pos hn, List.getElem?_modify, ih, Option.map_eq_map, Option.map_map]
      congr 1
      funext c
      by_cases hj : n = j
      · subst hj
        simp [hn]
      · have hlt : j < n + 1 ↔ j < n := by omega
        simp [hj, hlt]
    · rw [if_neg hn, ih]
      congr 1
      funext c
      by_cases hj : n = j
      · subst hj
        simp [hn]
      · have hlt : j < n + 1 ↔ j < n := by omega
        simp [hlt]

theorem availability_addBitfield (p : Picker) (bf : Bitfield) (j : Nat) :
    (p.addBitfield bf).availability[j]? =
      p.availability[j]?.map fun c => if bf.has j = true then (c + 1) % 2 ^ 32 else c := by
  refine (availability_fold bf (fun c => (c + 1) % 2 ^ 32) bf.len p j).trans ?_
  have hlt : (j < bf.len ∧ bf.has j = true) ↔ bf.has j = true :=
    and_iff_right_of_imp (bf.lt_of_has j)
  simp only [hlt]

theorem availability_removeBitfield (p : Picker) (bf : Bitfield) (j : Nat) :
    (p.removeBitfield bf).availability[j]? =
      p.availability[j]?.map fun c => if bf.has j = true then c - 1 else c := by
  refine (availability_fold bf (fun c => c - 1) bf.len p j).trans ?_
  have hlt : (j < bf.len ∧ bf.has j = true) ↔ bf.has j = true :=
    and_iff_right_of_imp (bf.lt_of_has j)
  simp only [hlt]

end Picker

end Rsurl.Bittorrent
