import Rsurl.Ascii

/-!
# Decoding UTF-8

Lossy decoding loses nothing of a text: every character is read back from its bytes. A text that is
cut short inside a character ends in one replacement. An ASCII character is read wherever it stands,
and what is decoded is never shorter than the bytes.
-/

namespace Rsurl.Text

/-- The bytes finish the character `c`, and none before the last does. -/
def Spells : Option Pending → Bytes → Char → Prop
  | _, [], _ => False
  | p, [b], c => lossyStep p b = ([c], none)
  | p, b :: next :: rest, c => ∃ q, lossyStep p b = ([], some q) ∧ Spells (some q) (next :: rest) c

theorem lossyFrom_append_of_spells {p : Option Pending} {bytes : Bytes} {c : Char}
    (h : Spells p bytes c) (rest : Bytes) :
    lossyFrom p (bytes ++ rest) = c :: lossyFrom none rest := by
  induction bytes generalizing p with
  | nil => cases h
  | cons b bytes ih =>
    cases bytes with
    | nil =>
      have hstep : lossyStep p b = ([c], none) := h
      cases p <;> simp [lossyFrom, hstep]
    | cons next bytes =>
      obtain ⟨q, hstep, hrest⟩ := h
      have hih := ih hrest
      cases p <;> simpa [lossyFrom, hstep] using hih

/-- Part of the bytes of a character. -/
theorem lossyFrom_take_of_spells {p : Pending} {bytes : Bytes} {c : Char}
    (h : Spells (some p) bytes c) {n : Nat} (hn : n < bytes.length) :
    lossyFrom (some p) (bytes.take n) = [replacement] := by
  induction bytes generalizing p n with
  | nil => cases h
  | cons b bytes ih =>
    cases n with
    | zero => rfl
    | succ n =>
      cases bytes with
      | nil => simp at hn
      | cons next bytes =>
        obtain ⟨q, hstep, hrest⟩ := h
        rw [List.take_succ_cons, lossyFrom, hstep]
        exact ih hrest (by simpa using hn)

theorem lossyChars_take_of_spells {bytes : Bytes} {c : Char} (h : Spells none bytes c) {n : Nat}
    (hpos : 0 < n) (hn : n < bytes.length) : lossyChars (bytes.take n) = [replacement] := by
  match bytes, n, hpos with
  | [b], n + 1, _ => simp at hn
  | b :: next :: bytes, n + 1, _ =>
    obtain ⟨q, hstep, hrest⟩ := h
    rw [lossyChars, List.take_succ_cons, lossyFrom, hstep]
    exact lossyFrom_take_of_spells hrest (by simpa using hn)

/-! ## The bytes of a character -/

theorem lossyStep_two {k : Nat} (hlow : 2 ≤ k) (hhigh : k < 32) :
    lossyStep none (UInt8.ofNat (k + 0xc0)) = ([], some ⟨k, 1, 0x80, 0xbf⟩) := by
  interval_cases k <;> rfl

theorem lossyStep_three {k : Nat} (hk : k < 16) :
    lossyStep none (UInt8.ofNat (k + 0xe0)) =
      ([], some ⟨k, 2, if k = 0 then 0xa0 else 0x80, if k = 0xd then 0x9f else 0xbf⟩) := by
  interval_cases k <;> rfl

theorem lossyStep_four {k : Nat} (hk : k < 5) :
    lossyStep none (UInt8.ofNat (k + 0xf0)) =
      ([], some ⟨k, 3, if k = 0 then 0x90 else 0x80, if k = 4 then 0x8f else 0xbf⟩) := by
  interval_cases k <;> rfl

section

variable {bits need k : Nat} {low high : UInt8}

theorem lossyStep_continue (hk : k < 64) (hlow : low.toNat ≤ k + 0x80)
    (hhigh : k + 0x80 ≤ high.toNat) :
    lossyStep (some ⟨bits, need, low, high⟩) (UInt8.ofNat (k + 0x80)) =
      if need = 1 then ([Char.ofNat (bits * 64 + k)], none)
      else ([], some ⟨bits * 64 + k, need - 1, 0x80, 0xbf⟩) := by
  have hb : (UInt8.ofNat (k + 0x80)).toNat = k + 0x80 := by
    rw [UInt8.toNat_ofNat']
    omega
  have hrange : (low ≤ UInt8.ofNat (k + 0x80) && UInt8.ofNat (k + 0x80) ≤ high) = true := by
    simp only [Bool.and_eq_true, decide_eq_true_eq, UInt8.le_iff_toNat_le, hb]
    exact ⟨hlow, hhigh⟩
  simp only [lossyStep, hrange, if_true, hb, Nat.add_sub_cancel]

/-- The last byte, after others. -/
theorem spells_last (hk : k < 64) (hlow : low.toNat ≤ k + 0x80) (hhigh : k + 0x80 ≤ high.toNat)
    {c : Char} (hc : Char.ofNat (bits * 64 + k) = c) :
    Spells (some ⟨bits, 1, low, high⟩) [UInt8.ofNat (k + 0x80)] c := by
  rw [Spells, lossyStep_continue hk hlow hhigh, if_pos rfl, hc]

/-- A byte in between. -/
theorem spells_more (hneed : need ≠ 1) (hk : k < 64) (hlow : low.toNat ≤ k + 0x80)
    (hhigh : k + 0x80 ≤ high.toNat) {next : UInt8} {rest : Bytes} {c : Char}
    (h : Spells (some ⟨bits * 64 + k, need - 1, 0x80, 0xbf⟩) (next :: rest) c) :
    Spells (some ⟨bits, need, low, high⟩) (UInt8.ofNat (k + 0x80) :: next :: rest) c :=
  ⟨_, by rw [lossyStep_continue hk hlow hhigh, if_neg hneed], h⟩

end

/-- The encoding of a character is read as that character. -/
theorem spells_encodeChar (c : Char) : Spells none (String.utf8EncodeChar c) c := by
  have hvalid : c.val.toNat < 0xd800 ∨ 0xdfff < c.val.toNat ∧ c.val.toNat < 0x110000 := c.valid
  have hc : Char.ofNat c.val.toNat = c := Char.ofNat_toNat c
  have hlow : (0x80 : UInt8).toNat = 0x80 := rfl
  have hhigh : (0xbf : UInt8).toNat = 0xbf := rfl
  unfold String.utf8EncodeChar
  extract_lets v
  have hv : v = c.val.toNat := rfl
  rw [← hv] at hc hvalid
  clear_value v
  split
  · rename_i h1
    rw [← hc]
    interval_cases v <;> rfl
  · rename_i h1
    split
    · rename_i h2
      refine ⟨_, lossyStep_two (k := v / 64 % 32) (by omega) (by omega), ?_⟩
      refine spells_last (by omega) (by omega) (by omega) ?_
      rwa [show v / 64 % 32 * 64 + v % 64 = v by omega]
    · rename_i h2
      split
      · rename_i h3
        refine ⟨_, lossyStep_three (k := v / 4096 % 16) (by omega), ?_⟩
        refine spells_more (by omega) (by omega) ?_ ?_ (spells_last (by omega) (by omega) (by omega) ?_)
        · split
          · change 0xa0 ≤ _
            omega
          · omega
        · split
          · change _ ≤ 0x9f
            omega
          · omega
        · rwa [show (v / 4096 % 16 * 64 + v / 64 % 64) * 64 + v % 64 = v by omega]
      · rename_i h3
        refine ⟨_, lossyStep_four (k := v / 262144 % 8) (by omega), ?_⟩
        refine spells_more (by omega) (by omega) ?_ ?_ (spells_more (by omega) (by omega) (by omega)
          (by omega) (spells_last (by omega) (by omega) (by omega) ?_))
        · split
          · change 0x90 ≤ _
            omega
          · omega
        · split
          · change _ ≤ 0x8f
            omega
          · omega
        · rwa [show ((v / 262144 % 8 * 64 + v / 4096 % 64) * 64 + v / 64 % 64) * 64 + v % 64 = v by
            omega]

/-! ## Texts -/

theorem lossyChars_append (c : Char) (rest : Bytes) :
    lossyChars (String.utf8EncodeChar c ++ rest) = c :: lossyChars rest :=
  lossyFrom_append_of_spells (spells_encodeChar c) rest

theorem lossyChars_flatMap (s : List Char) : lossyChars (s.flatMap String.utf8EncodeChar) = s := by
  induction s with
  | nil => rfl
  | cons c s ih => rw [List.flatMap_cons, lossyChars_append, ih]

theorem fromUtf8Lossy_asBytes (s : String) : fromUtf8Lossy (asBytes s) = s := by
  rw [fromUtf8Lossy, asBytes_eq_flatMap, lossyChars_flatMap, String.ofList_toList]

/-- A text that decodes from its first bytes has at most one more character in the others. -/
theorem length_le_of_lossyChars_take {s : List Char} {n : Nat}
    (h : lossyChars ((s.flatMap String.utf8EncodeChar).take n) = s) :
    (s.flatMap String.utf8EncodeChar).length ≤ n + 4 := by
  induction s generalizing n with
  | nil => simp
  | cons c s ih =>
    have hsize : (String.utf8EncodeChar c).length ≤ 4 := by
      rw [String.length_utf8EncodeChar]
      exact Char.utf8Size_le_four c
    rw [List.flatMap_cons] at h ⊢
    rw [List.length_append]
    by_cases hn : (String.utf8EncodeChar c).length ≤ n
    · rw [List.take_append, List.take_of_length_le hn, lossyChars_append] at h
      have := ih (List.cons.inj h).2
      omega
    · rw [List.take_append_of_le_length (by omega)] at h
      cases n with
      | zero => cases h
      | succ n =>
        rw [lossyChars_take_of_spells (spells_encodeChar c) (by omega) (by omega)] at h
        rw [← (List.cons.inj h).2, List.flatMap_nil, List.length_nil]
        omega

/-! ## Any bytes -/

/-- An open character, of so many bytes: what it may still become is a character of that size. -/
structure Pending.Open (p : Pending) (size : Nat) : Prop where
  need_pos : 1 ≤ p.need
  need_lt : p.need < size
  size_le : size ≤ 4
  low_ge : 0x80 ≤ p.low.toNat
  high_le : p.high.toNat ≤ 0xbf
  becomes : ∀ v, (p.bits * 64 + (p.low.toNat - 0x80)) * 64 ^ (p.need - 1) ≤ v →
    v < (p.bits * 64 + (p.high.toNat - 0x80) + 1) * 64 ^ (p.need - 1) →
    v.isValidChar ∧ size ≤ (Char.ofNat v).utf8Size

theorem le_utf8Size_ofNat {v size : Nat} (hv : v.isValidChar) (hsize : size ≤ 4)
    (h : 2 ≤ size → 0x80 ≤ v) (h3 : 3 ≤ size → 0x800 ≤ v) (h4 : 4 ≤ size → 0x10000 ≤ v) :
    size ≤ (Char.ofNat v).utf8Size := by
  have hval : (Char.ofNat v).val.toNat = v := by
    rw [← Char.toNat, Char.toNat_ofNat, if_pos hv]
  simp only [Char.utf8Size, UInt32.le_iff_toNat_le, hval]
  split_ifs with h7f h7ff hffff
  · change v ≤ 0x7f at h7f
    omega
  · change v ≤ 0x7ff at h7ff
    omega
  · change v ≤ 0xffff at hffff
    omega
  · exact hsize

/-- What an open character may become lies between these. -/
theorem open_of_range {bits need k : Nat} {low high : UInt8} (lo hi : Nat) (hpos : 1 ≤ need)
    (hneed : need ≤ 3) (hk : 64 ^ (need - 1) = k) (hlow : 0x80 ≤ low.toNat)
    (hhigh : high.toNat ≤ 0xbf) (hlo : lo ≤ (bits * 64 + (low.toNat - 0x80)) * k)
    (hhi : (bits * 64 + (high.toNat - 0x80) + 1) * k ≤ hi)
    (hvalid : hi ≤ 0xd800 ∨ 0xe000 ≤ lo ∧ hi ≤ 0x110000) (h2 : 0x80 ≤ lo)
    (h3 : 2 ≤ need → 0x800 ≤ lo) (h4 : 3 ≤ need → 0x10000 ≤ lo) :
    Pending.Open ⟨bits, need, low, high⟩ (need + 1) := by
  subst hk
  refine ⟨hpos, Nat.lt_succ_self _, by omega, hlow, hhigh, fun v hlov hvhi => ?_⟩
  have hv : lo ≤ v ∧ v < hi := ⟨hlo.trans hlov, hvhi.trans_le hhi⟩
  have hchar : v.isValidChar := by
    rcases hvalid with hvalid | hvalid
    · exact .inl (by omega)
    · exact .inr (by omega)
  exact ⟨hchar, le_utf8Size_ofNat hchar (by omega) (by omega) (by omega) (by omega)⟩

theorem open_of_lead {b : UInt8} {p : Pending} (h : Pending.ofLead b = some p) :
    p.Open (p.need + 1) := by
  have h80 : (0x80 : UInt8).toNat = 0x80 := rfl
  have hbf : (0xbf : UInt8).toNat = 0xbf := rfl
  have hb := b.toNat_lt
  unfold Pending.ofLead at h
  simp only [Bool.and_eq_true, decide_eq_true_eq, UInt8.le_iff_toNat_le] at h
  split_ifs at h with h2 he0 hed h3 hf0 h4 hf4 <;> obtain rfl := Option.some.inj h
  · change 0xc2 ≤ b.toNat ∧ b.toNat ≤ 0xdf at h2
    exact open_of_range 0x80 0x800 le_rfl (by omega) (pow_zero 64) le_rfl le_rfl (by omega)
      (by omega) (by omega) (by omega) (by omega) (by omega)
  · exact open_of_range 0x800 0x1000 (by omega) (by omega) (pow_one 64) (by decide) le_rfl
      (by decide) (by decide) (by omega) (by omega) (by omega) (by omega)
  · exact open_of_range 0xd000 0xd800 (by omega) (by omega) (pow_one 64) le_rfl (by decide)
      (by decide) (by decide) (by omega) (by omega) (by omega) (by omega)
  · change 0xe1 ≤ b.toNat ∧ b.toNat ≤ 0xef at h3
    have hne : b.toNat ≠ 0xed := fun hb => hed (by simpa using UInt8.toNat_inj.mp hb)
    rcases Nat.lt_or_gt_of_ne hne with hlt | hgt
    · exact open_of_range 0x1000 0xd000 (by omega) (by omega) (pow_one 64) le_rfl le_rfl (by omega)
        (by omega) (by omega) (by omega) (by omega) (by omega)
    · exact open_of_range 0xe000 0x10000 (by omega) (by omega) (pow_one 64) le_rfl le_rfl
        (by omega) (by omega) (by omega) (by omega) (by omega) (by omega)
  · exact open_of_range 0x10000 0x40000 (by omega) (by omega) (k := 4096) (by decide) (by decide)
      le_rfl (by decide) (by decide) (by omega) (by omega) (by omega) (by omega)
  · change 0xf1 ≤ b.toNat ∧ b.toNat ≤ 0xf3 at h4
    exact open_of_range 0x40000 0x100000 (by omega) (by omega) (k := 4096) (by decide) le_rfl le_rfl
      (by omega) (by omega) (by omega) (by omega) (by omega) (by omega)
  · exact open_of_range 0x100000 0x110000 (by omega) (by omega) (k := 4096) (by decide) le_rfl
      (by decide) (by decide) (by decide) (by omega) (by omega) (by omega) (by omega)

theorem Pending.Open.step {p : Pending} {size : Nat} (h : p.Open size) {b : UInt8}
    (hlow : p.low ≤ b) (hhigh : b ≤ p.high) :
    (p.need = 1 ∧ size ≤ (Char.ofNat (p.bits * 64 + (b.toNat - 0x80))).utf8Size) ∨
      (p.need ≠ 1 ∧
        Pending.Open ⟨p.bits * 64 + (b.toNat - 0x80), p.need - 1, 0x80, 0xbf⟩ size) := by
  rw [UInt8.le_iff_toNat_le] at hlow hhigh
  have hge := h.low_ge
  by_cases hone : p.need = 1
  · left
    have hv := h.becomes (p.bits * 64 + (b.toNat - 0x80))
    rw [hone] at hv
    exact ⟨hone, (hv (by omega) (by omega)).2⟩
  · right
    obtain ⟨n, hn⟩ : ∃ n, p.need = n + 2 := ⟨p.need - 2, by have := h.need_pos; omega⟩
    have hlt := h.need_lt
    refine ⟨hone, ?_, ?_, h.size_le, le_rfl, le_rfl, fun v hlo hhi => ?_⟩
    · change 1 ≤ p.need - 1
      omega
    · change p.need - 1 < size
      omega
    · have hpow : 64 ^ (p.need - 1) = 64 * 64 ^ n := by rw [hn, Nat.add_succ_sub_one, pow_succ']
      have hlow' : (0x80 : UInt8).toNat - 0x80 = 0 := rfl
      have hhigh' : (0xbf : UInt8).toNat - 0x80 = 63 := rfl
      have hn' : p.need - 1 - 1 = n := by omega
      simp only [hlow', hhigh', hn'] at hlo hhi
      refine h.becomes v ?_ ?_
      · calc (p.bits * 64 + (p.low.toNat - 0x80)) * 64 ^ (p.need - 1)
            ≤ (p.bits * 64 + (b.toNat - 0x80)) * 64 ^ (p.need - 1) :=
              Nat.mul_le_mul_right _ (by omega)
          _ = ((p.bits * 64 + (b.toNat - 0x80)) * 64 + 0) * 64 ^ n := by rw [hpow]; ring
          _ ≤ v := hlo
      · calc v < ((p.bits * 64 + (b.toNat - 0x80)) * 64 + 63 + 1) * 64 ^ n := hhi
          _ = (p.bits * 64 + (b.toNat - 0x80) + 1) * 64 ^ (p.need - 1) := by rw [hpow]; ring
          _ ≤ (p.bits * 64 + (p.high.toNat - 0x80) + 1) * 64 ^ (p.need - 1) :=
              Nat.mul_le_mul_right _ (by omega)

/-- So many bytes of a character are read. -/
def Begun : Option Pending → Nat → Prop
  | none, k => k = 0
  | some p, k => p.Open (k + p.need)

theorem begun_none : Begun none 0 := rfl

/-- How many bytes a text takes. -/
def size (s : List Char) : Nat := (s.flatMap String.utf8EncodeChar).length

@[simp] theorem size_nil : size [] = 0 := rfl

@[simp] theorem size_cons (c : Char) (s : List Char) : size (c :: s) = c.utf8Size + size s := by
  simp [size]

@[simp] theorem size_append (s t : List Char) : size (s ++ t) = size s + size t := by simp [size]

@[simp] theorem utf8Size_replacement : replacement.utf8Size = 3 := by decide

theorem lossyLead_ascii {b : UInt8} (hb : b < 0x80) : lossyLead b = ([Char.ofNat b.toNat], none) :=
  if_pos hb

/-- An ASCII byte ends whatever has begun. -/
theorem lossyFrom_ascii {p : Option Pending} {k : Nat} (h : Begun p k) {b : UInt8} (hb : b < 0x80)
    (rest : Bytes) :
    lossyFrom p (b :: rest) = lossyFrom p [] ++ Char.ofNat b.toNat :: lossyChars rest := by
  cases p with
  | none => simp [lossyFrom, lossyStep, lossyLead_ascii hb, lossyChars]
  | some p =>
    have hlow : ¬p.low ≤ b := by
      have hge := h.low_ge
      rw [UInt8.le_iff_toNat_le]
      rw [UInt8.lt_iff_toNat_lt] at hb
      change b.toNat < 0x80 at hb
      omega
    simp [lossyFrom, lossyStep, hlow, lossyLead_ascii hb, lossyChars]

theorem begun_lead (b : UInt8) :
    ∃ k, Begun (lossyLead b).2 k ∧ 1 ≤ size (lossyLead b).1 + k := by
  unfold lossyLead
  split
  · exact ⟨0, begun_none, by simpa using Nat.succ_le_of_lt (Char.utf8Size_pos _)⟩
  · cases hp : Pending.ofLead b with
    | none => exact ⟨0, begun_none, by simp⟩
    | some p => exact ⟨1, by simpa [Begun, Nat.add_comm] using open_of_lead hp, by simp⟩

/-- A byte is in what has begun, or in what it has finished. -/
theorem Begun.step {p : Option Pending} {k : Nat} (h : Begun p k) (b : UInt8) :
    ∃ k', Begun (lossyStep p b).2 k' ∧ k + 1 ≤ size (lossyStep p b).1 + k' := by
  obtain ⟨k', hbegun, hk'⟩ := begun_lead b
  cases p with
  | none =>
    obtain rfl : k = 0 := h
    exact ⟨k', hbegun, by simpa [lossyStep] using hk'⟩
  | some p =>
    have hneed := h.need_pos
    have hsize := h.size_le
    rw [lossyStep]
    split
    · rename_i hrange
      simp only [Bool.and_eq_true, decide_eq_true_eq] at hrange
      rcases Pending.Open.step h hrange.1 hrange.2 with ⟨hone, hchar⟩ | ⟨hmore, hopen⟩
      · refine ⟨0, by simp [hone, Begun], ?_⟩
        simpa [hone] using hchar
      · refine ⟨k + 1, ?_, by simp⟩
        simp only [if_neg hmore, Begun]
        rwa [show k + 1 + (p.need - 1) = k + p.need by omega]
    · refine ⟨k', hbegun, ?_⟩
      simp
      omega

theorem length_le_size_lossyFrom {p : Option Pending} {k : Nat} (h : Begun p k) (bytes : Bytes) :
    k + bytes.length ≤ size (lossyFrom p bytes) := by
  induction bytes generalizing p k with
  | nil =>
    cases p with
    | none => exact Nat.le_of_eq h
    | some p =>
      have hneed := h.need_pos
      have hsize := h.size_le
      simp [lossyFrom]
      omega
  | cons b bytes ih =>
    obtain ⟨k', hbegun, hk⟩ := h.step b
    have hrest := ih hbegun
    have hfrom : lossyFrom p (b :: bytes) =
        (lossyStep p b).1 ++ lossyFrom (lossyStep p b).2 bytes := by cases p <;> rfl
    rw [hfrom, size_append, List.length_cons]
    omega

/-- What is decoded is never shorter than the bytes. -/
theorem length_le_size_lossyChars (bytes : Bytes) : bytes.length ≤ size (lossyChars bytes) := by
  simpa [lossyChars] using length_le_size_lossyFrom begun_none bytes

theorem lossyFrom_append_ascii {p : Option Pending} {k : Nat} (h : Begun p k) {b : UInt8}
    (hb : b < 0x80) (bytes rest : Bytes) :
    lossyFrom p (bytes ++ b :: rest) =
      lossyFrom p bytes ++ Char.ofNat b.toNat :: lossyChars rest := by
  induction bytes generalizing p k with
  | nil => exact lossyFrom_ascii h hb rest
  | cons a bytes ih =>
    obtain ⟨k', hbegun, -⟩ := h.step a
    have hrest := ih hbegun
    cases p <;> simp [lossyFrom, hrest]

/-- An ASCII character is read wherever it stands. -/
theorem lossyChars_append_ascii {b : UInt8} (hb : b < 0x80) (bytes rest : Bytes) :
    lossyChars (bytes ++ b :: rest) = lossyChars bytes ++ Char.ofNat b.toNat :: lossyChars rest :=
  lossyFrom_append_ascii begun_none hb bytes rest

/-- What has begun does not become an ASCII character. -/
theorem head_lossyFrom {p : Pending} {size : Nat} (h : p.Open size) (bytes : Bytes) {c : Char}
    (hc : c ∈ (lossyFrom (some p) bytes).head?) : 2 ≤ c.utf8Size := by
  induction bytes generalizing p with
  | nil =>
    obtain rfl : replacement = c := by simpa [lossyFrom] using hc
    decide
  | cons b bytes ih =>
    have hneed := h.need_pos
    have hlt := h.need_lt
    rw [lossyFrom, lossyStep] at hc
    split_ifs at hc with hrange hone
    · simp only [Bool.and_eq_true, decide_eq_true_eq] at hrange
      obtain ⟨-, hsize⟩ := (h.step hrange.1 hrange.2).resolve_right fun hmore => hmore.1 hone
      obtain rfl : _ = c := by simpa using hc
      omega
    · simp only [Bool.and_eq_true, decide_eq_true_eq] at hrange
      obtain ⟨-, hopen⟩ := (h.step hrange.1 hrange.2).resolve_left fun hlast => hone hlast.1
      exact ih hopen (by simpa using hc)
    · obtain rfl : replacement = c := by simpa using hc
      decide

/-- An ASCII character at the front is the first byte. -/
theorem eq_cons_of_lossyChars {bytes : Bytes} {c : Char} {cs : List Char} (hc : c.toNat < 0x80)
    (h : lossyChars bytes = c :: cs) :
    ∃ rest, bytes = UInt8.ofNat c.toNat :: rest ∧ lossyChars rest = cs := by
  have hsize : ¬2 ≤ c.utf8Size := by
    have hval : c.val ≤ 0x7f := UInt32.le_iff_toNat_le.mpr (Nat.le_of_lt_succ hc)
    simp [Char.utf8Size, hval]
  cases bytes with
  | nil => cases h
  | cons b bytes =>
    by_cases hb : b < 0x80
    · have hascii := lossyChars_append_ascii hb [] bytes
      rw [List.nil_append, h] at hascii
      obtain ⟨rfl, rfl⟩ := List.cons.inj hascii
      have hvalid : b.toNat.isValidChar := .inl (by have := b.toNat_lt; omega)
      exact ⟨bytes, by rw [Char.toNat_ofNat, if_pos hvalid, UInt8.ofNat_toNat], rfl⟩
    · rw [lossyChars, lossyFrom, lossyStep, lossyLead, if_neg hb] at h
      cases hp : Pending.ofLead b with
      | none =>
        rw [hp] at h
        obtain ⟨rfl, -⟩ := List.cons.inj h
        exact absurd (by decide) hsize
      | some p =>
        rw [hp] at h
        change lossyFrom (some p) bytes = c :: cs at h
        exact absurd (head_lossyFrom (open_of_lead hp) bytes (by simp [h])) hsize

/-- An ASCII text at the front is the first bytes. -/
theorem eq_append_of_lossyChars {s rest : List Char} (hs : ∀ c ∈ s, c.toNat < 0x80) {bytes : Bytes}
    (h : lossyChars bytes = s ++ rest) :
    ∃ more, bytes = s.flatMap String.utf8EncodeChar ++ more ∧ lossyChars more = rest := by
  induction s generalizing bytes with
  | nil => exact ⟨bytes, rfl, h⟩
  | cons c s ih =>
    obtain ⟨hc, hs⟩ := List.forall_mem_cons.mp hs
    obtain ⟨tail, rfl, htail⟩ := eq_cons_of_lossyChars hc h
    obtain ⟨more, rfl, hmore⟩ := ih hs htail
    exact ⟨more, by simp [utf8EncodeChar_ascii hc], hmore⟩

theorem lossyChars_flatMap_append (s : List Char) (bytes : Bytes) :
    lossyChars (s.flatMap String.utf8EncodeChar ++ bytes) = s ++ lossyChars bytes := by
  induction s with
  | nil => rfl
  | cons c s ih =>
    rw [List.flatMap_cons, List.append_assoc, lossyChars_append, ih, List.cons_append]

/-! ## ASCII characters -/

def countAscii (s : List Char) : Nat := s.countP fun c => decide (c.toNat < 0x80)

@[simp] theorem countAscii_nil : countAscii [] = 0 := rfl

theorem countAscii_cons (c : Char) (s : List Char) :
    countAscii (c :: s) = countAscii s + if c.toNat < 0x80 then 1 else 0 := by
  simp [countAscii, List.countP_cons]

theorem countAscii_append (s t : List Char) :
    countAscii (s ++ t) = countAscii s + countAscii t := List.countP_append

theorem toNat_ge_of_utf8Size {c : Char} (h : 2 ≤ c.utf8Size) : ¬c.toNat < 0x80 := by
  intro hc
  have hval : c.val ≤ 0x7f := UInt32.le_iff_toNat_le.mpr (Nat.le_of_lt_succ hc)
  simp [Char.utf8Size, hval] at h

theorem countAscii_lossyLead (b : UInt8) :
    countAscii (lossyLead b).1 = if b < 0x80 then 1 else 0 := by
  unfold lossyLead
  split
  · next hb =>
    have hlt : b.toNat < 0x80 := UInt8.lt_iff_toNat_lt.mp hb
    have hval : (Char.ofNat b.toNat).toNat = b.toNat := by
      rw [Char.toNat_ofNat, if_pos (.inl (by omega))]
    rw [countAscii_cons, hval, if_pos hlt, countAscii_nil]
  · cases Pending.ofLead b with
    | none => rfl
    | some p => rfl

theorem countAscii_lossyStep {p : Option Pending} {k : Nat} (h : Begun p k) (b : UInt8) :
    countAscii (lossyStep p b).1 = if b < 0x80 then 1 else 0 := by
  cases p with
  | none => exact countAscii_lossyLead b
  | some p =>
    rw [lossyStep]
    split
    · next hrange =>
      simp only [Bool.and_eq_true, decide_eq_true_eq] at hrange
      have hhigh : ¬b < 0x80 := by
        have hge := h.low_ge
        have hlow := UInt8.le_iff_toNat_le.mp hrange.1
        rw [UInt8.lt_iff_toNat_lt]
        exact Nat.not_lt.mpr (hge.trans hlow)
      rw [if_neg hhigh]
      have hneed := h.need_lt
      rcases Pending.Open.step h hrange.1 hrange.2 with ⟨hone, hsize⟩ | ⟨hmore, -⟩
      · have htwo : 2 ≤ (Char.ofNat (p.bits * 64 + (b.toNat - 0x80))).utf8Size := by omega
        simp [hone, countAscii_cons, toNat_ge_of_utf8Size htwo]
      · simp [hmore]
    · have hreplaced : ¬replacement.toNat < 0x80 := by decide
      rw [countAscii_cons, if_neg hreplaced]
      exact countAscii_lossyLead b

theorem countAscii_lossyFrom {p : Option Pending} {k : Nat} (h : Begun p k) (bytes : Bytes) :
    countAscii (lossyFrom p bytes) = bytes.countP (· < 0x80) := by
  induction bytes generalizing p k with
  | nil => cases p <;> rfl
  | cons b bytes ih =>
    obtain ⟨k', hbegun, -⟩ := h.step b
    have hfrom : lossyFrom p (b :: bytes) =
        (lossyStep p b).1 ++ lossyFrom (lossyStep p b).2 bytes := by cases p <;> rfl
    rw [hfrom, countAscii_append, ih hbegun, countAscii_lossyStep h, List.countP_cons]
    simp [Nat.add_comm]

end Rsurl.Text
