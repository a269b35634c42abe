import Rsurl.Download.Response
import Rsurl.Library.Endian

/-!
# The chunks of a segmented download

`chunkPlan` cuts a resource into chunks, and a bitmap says which of them are finished. The chunks of
a plan are the resource: every offset is in one of them, and in no other.
-/

namespace Rsurl.Download

open Library

def minSegmentBytes : Nat := 2 ^ 20
def maxSegmentWorkers : Nat := 16
def maxSegmentChunks : Nat := 1024

/-- The chunks, each with its first and its last offset. -/
abbrev Plan := List (Nat × Nat)

/-- A key for a chunk layout. -/
def planKey (plan : Plan) : UInt32 :=
  plan.foldl (fun h c => (Endian.toLe 8 c.1 ++ Endian.toLe 8 c.2).foldl
    (fun h b => (h ^^^ b.toUInt32) * 0x01000193) h) 0x811c9dc5

def divCeil (a b : Nat) : Nat := (a + b - 1) / b

def clamp (n lower upper : Nat) : Nat := max lower (min n upper)

/-- `n` equal parts; the last takes the remainder. -/
def equalParts (total n : Nat) : Plan :=
  let seg := total / n
  (List.range n).map fun i => (i * seg, if i = n - 1 then total - 1 else (i + 1) * seg - 1)

/-- Parts of `size` bytes. -/
def sizedParts (total size : Nat) : Plan :=
  (List.range (min (divCeil total size) maxSegmentChunks)).map fun i =>
    (i * size, min (min (i * size + size) maxWord) total - 1)

/-- The layout and its key; `none` is the fallback to a single stream. -/
def chunkPlan (opts : DownloadOptions) (total : Nat) : Option (UInt32 × Plan) :=
  match opts.segments with
  | some wanted =>
    let bySize := max (divCeil total minSegmentBytes) 1
    let n := clamp wanted 1 (clamp bySize 1 maxSegmentChunks)
    if n < 2 then none
    else
      let plan := equalParts total n
      some (planKey plan, plan)
  | none =>
    match opts.segmentSize.filter (0 < ·) with
    | some size =>
      let plan := sizedParts total (max size (divCeil total maxSegmentChunks))
      some (planKey plan, plan)
    | none => none

/-- The offset is in the chunk. -/
def InChunk (plan : Plan) (i p : Nat) : Prop :=
  ∃ start last, plan[i]? = some (start, last) ∧ start ≤ p ∧ p ≤ last

/-- The chunks are the resource. -/
structure Covers (plan : Plan) (total : Nat) : Prop where
  bounds : ∀ (i : Nat) (c : Nat × Nat), plan[i]? = some c → c.1 ≤ c.2 ∧ c.2 < total
  covered : ∀ p, p < total → ∃ i, InChunk plan i p
  disjoint : ∀ i j p, InChunk plan i p → InChunk plan j p → i = j

theorem divCeil_mul (a : Nat) {b : Nat} (hb : 0 < b) : a ≤ divCeil a b * b := by
  have hdiv := Nat.div_add_mod (a + b - 1) b
  have hmod := Nat.mod_lt (a + b - 1) hb
  rw [Nat.mul_comm] at hdiv
  unfold divCeil
  omega

/-! ## Chunks between bounds -/

/-- The chunks between the bounds `b 0`, …, `b n`. -/
def between (b : Nat → Nat) (n : Nat) : Plan :=
  (List.range n).map fun i => (b i, b (i + 1) - 1)

/-- The bounds cut a resource into `n` chunks. -/
structure Cuts (b : Nat → Nat) (n total : Nat) : Prop where
  first : b 0 = 0
  step : ∀ i, i < n → b i < b (i + 1)
  last : b n = total

section

variable {b : Nat → Nat} {n : Nat}

theorem getElem?_between {i : Nat} {c : Nat × Nat} :
    (between b n)[i]? = some c ↔ i < n ∧ c = (b i, b (i + 1) - 1) := by
  unfold between
  rw [List.getElem?_map]
  by_cases hi : i < n
  · simp [hi, eq_comm]
  · simp [hi]

theorem bounds_le (hmono : ∀ i, i < n → b i < b (i + 1)) {i j : Nat} (hij : i ≤ j) (hj : j ≤ n) :
    b i ≤ b j := by
  induction j, hij using Nat.le_induction with
  | base => exact le_rfl
  | succ j hij ih => exact (ih (by omega)).trans (hmono j (by omega)).le

theorem exists_between (h0 : b 0 = 0) {p : Nat} (hp : p < b n) :
    ∃ i, i < n ∧ b i ≤ p ∧ p < b (i + 1) := by
  induction n with
  | zero => omega
  | succ n ih =>
    by_cases hlow : p < b n
    · obtain ⟨i, hi, h⟩ := ih hlow
      exact ⟨i, by omega, h⟩
    · exact ⟨n, by omega, by omega, hp⟩

theorem Cuts.covers {total : Nat} (hcuts : Cuts b n total) : Covers (between b n) total where
  bounds i c h := by
    obtain ⟨hi, rfl⟩ := getElem?_between.mp h
    have hlt := hcuts.step i hi
    have hle := bounds_le hcuts.step (i := i + 1) (by omega) le_rfl
    have hlast := hcuts.last
    constructor <;> dsimp only <;> omega
  covered p hp := by
    obtain ⟨i, hi, hle, hlt⟩ := exists_between hcuts.first (hcuts.last.symm ▸ hp)
    exact ⟨i, _, _, getElem?_between.mpr ⟨hi, rfl⟩, hle, by omega⟩
  disjoint i j p hi hj := by
    obtain ⟨s, l, hi, hsi, hli⟩ := hi
    obtain ⟨t, m, hj, htj, hmj⟩ := hj
    obtain ⟨hin, hi⟩ := getElem?_between.mp hi
    obtain ⟨hjn, hj⟩ := getElem?_between.mp hj
    simp only [Prod.mk.injEq] at hi hj
    have hposi := hcuts.step i hin
    have hposj := hcuts.step j hjn
    by_contra hij
    rcases Nat.lt_or_gt_of_ne hij with hij | hij
    · have := bounds_le hcuts.step (i := i + 1) (j := j) (by omega) (by omega)
      omega
    · have := bounds_le hcuts.step (i := j + 1) (j := i) (by omega) (by omega)
      omega

end

/-! ## The plans -/

theorem equalParts_eq {total n : Nat} (hn : 0 < n) : equalParts total n =
    between (fun i => if i = n then total else i * (total / n)) n := by
  unfold equalParts between
  refine List.map_congr_left fun i hi => ?_
  have hi := List.mem_range.mp hi
  have hlast : i = n - 1 ↔ i + 1 = n := by omega
  refine Prod.ext ?_ ?_ <;> dsimp only
  · rw [if_neg (by omega)]
  · by_cases h : i + 1 = n
    · rw [if_pos h, if_pos (hlast.mpr h)]
    · rw [if_neg h, if_neg (mt hlast.mp h)]

theorem cuts_equalParts {total n : Nat} (hn : 0 < n) (hseg : n ≤ total) :
    Cuts (fun i => if i = n then total else i * (total / n)) n total where
  first := by simp [hn.ne]
  step i hi := by
    have hpos : 0 < total / n := Nat.div_pos hseg hn
    have hstep : (i + 1) * (total / n) ≤ total :=
      (Nat.mul_le_mul_right _ (by omega)).trans (Nat.mul_div_le total n)
    rw [Nat.add_mul] at hstep
    rw [if_neg (by omega)]
    split_ifs
    · omega
    · rw [Nat.add_mul]
      omega
  last := if_pos rfl

/-- A chunk that is counted starts before the end. -/
theorem mul_lt_of_lt_divCeil {total size i : Nat} (hsize : 0 < size) (hi : i < divCeil total size) :
    i * size < total := by
  unfold divCeil at hi
  rw [Nat.lt_div_iff_mul_lt hsize] at hi
  have := Nat.mul_comm size i
  omega

theorem divCeil_le {total size n : Nat} (hsize : 0 < size) (hcap : total ≤ n * size) :
    divCeil total size ≤ n := by
  unfold divCeil
  rw [Nat.div_le_iff_le_mul_add_pred hsize]
  have := Nat.mul_comm n size
  omega

theorem sizedParts_eq {total size : Nat} (htotal : total ≤ maxWord) (hsize : 0 < size)
    (hcap : total ≤ maxSegmentChunks * size) : sizedParts total size =
    between (fun i => min (i * size) total) (divCeil total size) := by
  unfold sizedParts between
  rw [Nat.min_eq_left (divCeil_le hsize hcap)]
  refine List.map_congr_left fun i hi => ?_
  have hlt := mul_lt_of_lt_divCeil hsize (List.mem_range.mp hi)
  refine Prod.ext ?_ ?_ <;> dsimp only
  · omega
  · rw [Nat.add_mul, Nat.one_mul]
    omega

theorem cuts_sizedParts {total size : Nat} (hsize : 0 < size) :
    Cuts (fun i => min (i * size) total) (divCeil total size) total where
  first := by simp
  step i hi := by
    have hlt := mul_lt_of_lt_divCeil hsize hi
    rw [Nat.add_mul]
    omega
  last := Nat.min_eq_right (divCeil_mul total hsize)

/-- A count that is asked for is at most that of the smallest chunks. -/
theorem equalParts_count {total n wanted : Nat} (hn : ¬n < 2)
    (hdef : n = clamp wanted 1 (clamp (max (divCeil total minSegmentBytes) 1) 1 maxSegmentChunks)) :
    n ≤ total ∧ n ≤ maxSegmentChunks := by
  have hparts : n ≤ divCeil total minSegmentBytes ∧ n ≤ maxSegmentChunks := by
    unfold clamp maxSegmentChunks at hdef
    unfold maxSegmentChunks
    omega
  refine ⟨?_, hparts.2⟩
  unfold divCeil minSegmentBytes at hparts
  omega

/-- The size that is used is large enough for the file to fit in the chunks. -/
theorem sizedParts_fits (total size : Nat) :
    total ≤ maxSegmentChunks * max size (divCeil total maxSegmentChunks) := by
  have hceil := @divCeil_mul total maxSegmentChunks (by decide)
  have hmax := Nat.mul_le_mul_left maxSegmentChunks
    (Nat.le_max_right size (divCeil total maxSegmentChunks))
  rw [Nat.mul_comm] at hceil
  exact hceil.trans hmax

/-- A plan is the chunks between its bounds. -/
theorem chunkPlan_between {opts : DownloadOptions} {total : Nat} (htotal : total ≤ maxWord)
    {key : UInt32} {plan : Plan} (h : chunkPlan opts total = some (key, plan)) :
    ∃ b n, plan = between b n ∧ Cuts b n total ∧ n ≤ maxSegmentChunks := by
  unfold chunkPlan at h
  split at h
  · rename_i wanted hwanted
    dsimp only at h
    split_ifs at h with hn
    cases h
    obtain ⟨hle, hmax⟩ := equalParts_count hn rfl
    exact ⟨_, _, equalParts_eq (by omega), cuts_equalParts (by omega) hle, hmax⟩
  · split at h
    · rename_i size hsize
      cases h
      rw [Option.filter_eq_some_iff] at hsize
      have hpos : 0 < max size (divCeil total maxSegmentChunks) := by
        have hsize : 0 < size := by simpa using hsize.2
        omega
      have hfits := sizedParts_fits total size
      exact ⟨_, _, sizedParts_eq htotal hpos hfits, cuts_sizedParts hpos, divCeil_le hpos hfits⟩
    · cases h

theorem covers_chunkPlan {opts : DownloadOptions} {total : Nat} (htotal : total ≤ maxWord)
    {key : UInt32} {plan : Plan} (h : chunkPlan opts total = some (key, plan)) :
    Covers plan total := by
  obtain ⟨b, n, rfl, hcuts, -⟩ := chunkPlan_between htotal h
  exact hcuts.covers

/-! ## The bitmap of finished chunks, eight to a byte -/

/-- The bit of chunk `i`, if the map reaches that far. -/
def bitGet (map : Bytes) (i : Nat) : Option Bool :=
  map[i / 8]?.map fun b => b &&& (1 <<< UInt8.ofNat (i % 8)) ≠ 0

def bitSet (map : Bytes) (i : Nat) : Option Bytes :=
  map[i / 8]?.map fun b => map.set (i / 8) (b ||| (1 <<< UInt8.ofNat (i % 8)))

theorem toNat_bit {x : Nat} (hx : x < 8) : (1 <<< UInt8.ofNat x : UInt8).toNat = 2 ^ x := by
  have hall : ∀ x : Fin 8, (1 <<< UInt8.ofNat x : UInt8).toNat = 2 ^ (x : Nat) := by decide
  exact hall ⟨x, hx⟩

theorem and_bit_ne_zero (b : UInt8) {x : Nat} (hx : x < 8) :
    b &&& (1 <<< UInt8.ofNat x) ≠ 0 ↔ b.toNat.testBit x = true := by
  rw [ne_eq, ← UInt8.toNat_inj, UInt8.toNat_and, toNat_bit hx, Nat.and_two_pow]
  cases b.toNat.testBit x <;> simp

/-- Setting a bit sets that one. -/
theorem bitGet_bitSet {map map' : Bytes} {i : Nat} (h : bitSet map i = some map') (j : Nat) :
    bitGet map' j = some true ↔ j = i ∨ bitGet map j = some true := by
  unfold bitSet at h
  obtain ⟨b, hb, rfl⟩ := Option.map_eq_some_iff.mp h
  obtain ⟨hlt, hget⟩ := List.getElem?_eq_some_iff.mp hb
  have hi : i % 8 < 8 := Nat.mod_lt i (by decide)
  have hj : j % 8 < 8 := Nat.mod_lt j (by decide)
  unfold bitGet
  by_cases hbyte : j / 8 = i / 8
  · rw [hbyte, List.getElem?_set_self hlt, hb]
    simp only [Option.map_some, Option.some.injEq, decide_eq_true_eq, and_bit_ne_zero _ hj,
      UInt8.toNat_or, toNat_bit hi, Nat.testBit_or, Nat.testBit_two_pow, Bool.or_eq_true]
    constructor
    · rintro (h | h)
      · exact .inr h
      · exact .inl (by omega)
    · rintro (rfl | h)
      · exact .inr rfl
      · exact .inl h
  · rw [List.getElem?_set_ne (Ne.symm hbyte)]
    refine (or_iff_right ?_).symm
    rintro rfl
    exact hbyte rfl

end Rsurl.Download
