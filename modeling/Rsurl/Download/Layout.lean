import Rsurl.Download.Plan

/-!
# The arithmetic of a plan

The chunks of a plan follow each other from the first byte of the resource to the last, there are
never too many of them, and no `u64` that is computed on the way leaves its range. What a bitmap
says is finished is no more than the resource.
-/

namespace Rsurl.Download

/-- `equalParts`, where an operation that leaves the range fails. -/
def equalPartsU64 (total n : Nat) : Option Plan :=
  let seg := total / n
  (List.range n).mapM fun i => do
    let start ← mulU64 i seg
    let last ← if i = n - 1 then subU64 total 1 else do
      let next ← addU64 i 1
      let bound ← mulU64 next seg
      subU64 bound 1
    some (start, last)

/-- `sizedParts`, likewise. The sum saturates. -/
def sizedPartsU64 (total size : Nat) : Option Plan :=
  (List.range (min (divCeil total size) maxSegmentChunks)).mapM fun i => do
    let start ← mulU64 i size
    let last ← subU64 (min (min (start + size) maxWord) total) 1
    some (start, last)

/-- `chunkPlan`, likewise. -/
def chunkPlanU64 (opts : DownloadOptions) (total : Nat) : Option (Option (UInt32 × Plan)) :=
  match opts.segments with
  | some wanted =>
    let bySize := max (divCeil total minSegmentBytes) 1
    let n := clamp wanted 1 (clamp bySize 1 maxSegmentChunks)
    if n < 2 then some none
    else (equalPartsU64 total n).map fun plan => some (planKey plan, plan)
  | none =>
    match opts.segmentSize.filter (0 < ·) with
    | some size =>
      (sizedPartsU64 total (max size (divCeil total maxSegmentChunks))).map fun plan =>
        some (planKey plan, plan)
    | none => some none

/-- The length of a finished chunk is added to the sum. -/
def addDone (bitmap : Bytes) (sum : Nat) (c : (Nat × Nat) × Nat) : Option Nat := do
  if ← bitGet bitmap c.2 then
    let span ← subU64 c.1.2 c.1.1
    let len ← addU64 span 1
    addU64 sum len
  else some sum

/-- The bytes of the finished chunks. A chunk that has no bit in the map is a panic. -/
def planDoneBytes (plan : Plan) (bitmap : Bytes) : Option Nat :=
  plan.zipIdx.foldlM (addDone bitmap) 0

/-! ## In range -/

theorem mapM_eq_map {α β : Type} {f : α → Option β} {g : α → β} {xs : List α}
    (h : ∀ x ∈ xs, f x = some (g x)) : xs.mapM f = some (xs.map g) := by
  induction xs with
  | nil => rfl
  | cons x xs ih =>
    rw [List.mapM_cons, h x List.mem_cons_self, ih fun y hy => h y (List.mem_cons_of_mem x hy)]
    rfl

theorem equalPartsU64_eq {total n : Nat} (htotal : total ≤ maxWord) (hn : 0 < n) (hle : n ≤ total) :
    equalPartsU64 total n = some (equalParts total n) := by
  refine mapM_eq_map fun i hi => ?_
  have hi := List.mem_range.mp hi
  have hseg : 0 < total / n := Nat.div_pos hle hn
  have hbound : (i + 1) * (total / n) ≤ total :=
    (Nat.mul_le_mul_right _ hi).trans (Nat.mul_div_le total n)
  have hstart : i * (total / n) ≤ (i + 1) * (total / n) := Nat.mul_le_mul_right _ (by omega)
  have hpos : 0 < (i + 1) * (total / n) := Nat.mul_pos (by omega) hseg
  rw [mulU64_eq (by omega)]
  split
  · rw [subU64_eq (by omega)]
    rfl
  · rw [addU64_eq (by omega)]
    simp only [Option.bind_eq_bind, Option.bind_some]
    rw [mulU64_eq (by omega)]
    simp only [Option.bind_some]
    rw [subU64_eq hpos]
    rfl

theorem sizedPartsU64_eq {total size : Nat} (htotal : total ≤ maxWord) (hsize : 0 < size) :
    sizedPartsU64 total size = some (sizedParts total size) := by
  refine mapM_eq_map fun i hi => ?_
  have hlt : i * size < total := by
    have hcount := List.mem_range.mp hi
    exact mul_lt_of_lt_divCeil hsize (by omega)
  rw [mulU64_eq (by omega)]
  simp only [Option.bind_eq_bind, Option.bind_some]
  rw [subU64_eq (by omega)]
  rfl

/-- No operation leaves the range. -/
theorem chunkPlanU64_eq {opts : DownloadOptions} {total : Nat} (htotal : total ≤ maxWord) :
    chunkPlanU64 opts total = some (chunkPlan opts total) := by
  unfold chunkPlanU64 chunkPlan
  cases opts.segments with
  | some wanted =>
    dsimp only
    split
    · rfl
    · rename_i hn
      rw [equalPartsU64_eq htotal (by omega) (equalParts_count hn rfl).1]
      rfl
  | none =>
    dsimp only
    cases hsize : opts.segmentSize.filter (0 < ·) with
    | none => rfl
    | some size =>
      have hpos : 0 < size := by simpa using (Option.filter_eq_some_iff.mp hsize).2
      dsimp only
      rw [sizedPartsU64_eq htotal (by omega)]
      rfl

/-! ## One after the other -/

/-- The chunks are the resource, from its first byte to its last. -/
structure Partitions (plan : Plan) (total : Nat) : Prop where
  nonempty : plan ≠ []
  count : plan.length ≤ maxSegmentChunks
  first : ∀ c, plan.head? = some c → c.1 = 0
  ordered : ∀ c ∈ plan, c.1 ≤ c.2
  adjacent : ∀ (i : Nat) (c d : Nat × Nat), plan[i]? = some c → plan[i + 1]? = some d →
    d.1 = c.2 + 1
  last : ∀ c, plan.getLast? = some c → c.2 = total - 1

theorem Cuts.partitions {b : Nat → Nat} {n total : Nat} (hcuts : Cuts b n total) (hpos : 0 < total)
    (hcount : n ≤ maxSegmentChunks) : Partitions (between b n) total where
  nonempty h := by
    have hn : n = 0 := by simpa [between] using h
    have hlast := hcuts.last
    rw [hn, hcuts.first] at hlast
    omega
  count := by simpa [between] using hcount
  first c h := by
    rw [List.head?_eq_getElem?] at h
    obtain ⟨-, rfl⟩ := getElem?_between.mp h
    exact hcuts.first
  ordered c h := by
    obtain ⟨i, hi⟩ := List.mem_iff_getElem?.mp h
    obtain ⟨hlt, rfl⟩ := getElem?_between.mp hi
    have := hcuts.step i hlt
    dsimp only
    omega
  adjacent i c d hc hd := by
    obtain ⟨hlt, rfl⟩ := getElem?_between.mp hc
    obtain ⟨-, rfl⟩ := getElem?_between.mp hd
    have := hcuts.step i hlt
    dsimp only
    omega
  last c h := by
    rw [List.getLast?_eq_getElem?] at h
    obtain ⟨hlt, rfl⟩ := getElem?_between.mp h
    have hlen : (between b n).length = n := by simp [between]
    rw [hlen] at hlt ⊢
    have hn : n - 1 + 1 = n := by omega
    dsimp only
    rw [hn, hcuts.last]

/-! ## What is finished -/

/-- The sum over the chunks from `i` on stays below the end of the last. -/
theorem foldlM_addDone {b : Nat → Nat} {m : Nat} (hstep : ∀ i, i < m → b i < b (i + 1))
    (hmax : b m ≤ maxWord) {bitmap : Bytes} {chunks : Plan} {i sum : Nat}
    (hchunks : ∀ (j : Nat) (c : Nat × Nat), chunks[j]? = some c →
      c = (b (i + j), b (i + j + 1) - 1)) (hend : i + chunks.length = m) (hsum : sum ≤ b i)
    (hbits : ∀ j < m, (bitGet bitmap j).isSome = true) :
    ∃ done, (chunks.zipIdx i).foldlM (addDone bitmap) sum = some done ∧ done ≤ b m := by
  induction chunks generalizing i sum with
  | nil =>
    have hi : i = m := by simpa using hend
    exact ⟨sum, rfl, hi ▸ hsum⟩
  | cons c rest ih =>
    rw [List.length_cons] at hend
    have hc := hchunks 0 c rfl
    rw [Nat.add_zero] at hc
    have hlt := hstep i (by omega)
    have hle := bounds_le hstep (i := i + 1) (j := m) (by omega) le_rfl
    have hrest : ∀ (j : Nat) (d : Nat × Nat), rest[j]? = some d →
        d = (b (i + 1 + j), b (i + 1 + j + 1) - 1) := fun j d hd => by
      have := hchunks (j + 1) d hd
      rwa [show i + (j + 1) = i + 1 + j by omega] at this
    obtain ⟨bit, hbit⟩ := Option.isSome_iff_exists.mp (hbits i (by omega))
    rw [List.zipIdx_cons, List.foldlM_cons, addDone, hbit, hc]
    cases bit with
    | false => exact ih hrest (by omega) (by omega)
    | true =>
      simp only [Option.bind_eq_bind, Option.bind_some, if_true]
      rw [subU64_eq (by omega)]
      simp only [Option.bind_some]
      rw [addU64_eq (by omega)]
      simp only [Option.bind_some]
      rw [addU64_eq (by omega)]
      exact ih hrest (by omega) (by omega)

/-- A sum that is found has read the bit of every chunk. -/
theorem isSome_bitGet_of_foldlM {bitmap : Bytes} {chunks : Plan} {i sum done : Nat}
    (h : (chunks.zipIdx i).foldlM (addDone bitmap) sum = some done) :
    ∀ j < chunks.length, (bitGet bitmap (i + j)).isSome = true := by
  induction chunks generalizing i sum with
  | nil => simp
  | cons c rest ih =>
    rw [List.zipIdx_cons, List.foldlM_cons] at h
    obtain ⟨sum', hsum, h⟩ := Option.bind_eq_some_iff.mp h
    intro j hj
    cases j with
    | zero =>
      obtain ⟨bit, hbit, -⟩ := Option.bind_eq_some_iff.mp hsum
      exact Option.isSome_of_eq_some hbit
    | succ j =>
      have hbit := ih h j (by simpa using hj)
      rwa [show i + 1 + j = i + (j + 1) by omega] at hbit

theorem isSome_bitGet {bitmap : Bytes} {i : Nat} (h : i / 8 < bitmap.length) :
    (bitGet bitmap i).isSome = true := by
  simpa [bitGet] using h

theorem Cuts.planDoneBytes_le {b : Nat → Nat} {n total : Nat} (hcuts : Cuts b n total)
    (hmax : total ≤ maxWord) {bitmap : Bytes} (hbits : ∀ i < n, (bitGet bitmap i).isSome = true) :
    ∃ done, planDoneBytes (between b n) bitmap = some done ∧ done ≤ total := by
  have hchunks : ∀ (j : Nat) (c : Nat × Nat), (between b n)[j]? = some c →
      c = (b (0 + j), b (0 + j + 1) - 1) := fun j c h => by
    rw [Nat.zero_add]
    exact (getElem?_between.mp h).2
  have h := foldlM_addDone hcuts.step (hcuts.last.symm ▸ hmax) hchunks (by simp [between])
    (Nat.zero_le _) hbits
  rwa [hcuts.last] at h

/-- A plan is computed without leaving the range of `u64`, its chunks follow each other from the
first byte to the last, and what is finished of it is at most the whole. -/
theorem chunk_plan_partitions (opts : DownloadOptions) (total : Nat) (hpos : 0 < total)
    (hmax : total ≤ maxWord) :
    chunkPlanU64 opts total = some (chunkPlan opts total) ∧
      ∀ key plan, chunkPlan opts total = some (key, plan) →
        Partitions plan total ∧ ∀ bitmap : Bytes,
          (∀ done, planDoneBytes plan bitmap = some done → done ≤ total) ∧
            ((∀ i < plan.length, i / 8 < bitmap.length) →
              (planDoneBytes plan bitmap).isSome = true) := by
  refine ⟨chunkPlanU64_eq hmax, fun key plan h => ?_⟩
  obtain ⟨b, n, rfl, hcuts, hcount⟩ := chunkPlan_between hmax h
  have hlen : (between b n).length = n := by simp [between]
  refine ⟨hcuts.partitions hpos hcount, fun bitmap => ⟨fun done hdone => ?_, fun hlong => ?_⟩⟩
  · have hbits : ∀ i < n, (bitGet bitmap i).isSome = true := fun i hi => by
      simpa using isSome_bitGet_of_foldlM hdone i (hlen.symm ▸ hi)
    obtain ⟨done', hdone', hle⟩ := hcuts.planDoneBytes_le hmax hbits
    rw [hdone'] at hdone
    cases hdone
    exact hle
  · obtain ⟨done, hdone, -⟩ := hcuts.planDoneBytes_le hmax fun i hi =>
      isSome_bitGet (hlong i (hlen.symm ▸ hi))
    exact Option.isSome_of_eq_some hdone

theorem chunk_plan_partitions_small :
    chunkPlan ⟨0, some 4, none, 1, none, none, none⟩ 10 =
        some (planKey [(0, 3), (4, 7), (8, 9)], [(0, 3), (4, 7), (8, 9)]) ∧
      Partitions [(0, 3), (4, 7), (8, 9)] 10 := by
  have hplan : chunkPlan ⟨0, some 4, none, 1, none, none, none⟩ 10 =
      some (planKey [(0, 3), (4, 7), (8, 9)], [(0, 3), (4, 7), (8, 9)]) := rfl
  exact ⟨hplan, ((chunk_plan_partitions _ 10 (by decide) (by decide)).2 _ _ hplan).1⟩

end Rsurl.Download
