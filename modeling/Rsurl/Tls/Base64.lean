import Rsurl.Net.Connect

/-!
# Base64

The decoder of pins, beside the encoder that is shared by all. It skips white space and takes groups
of four characters, the last of which may end in padding; how much padding there may be it does not
ask.
-/

namespace Rsurl.Tls

open Text
open Net (base64Value encoded)
open Http2 (base64Char base64Chars base64Encode)

def isAsciiWhitespace (b : UInt8) : Bool :=
  b == 0x20 || b == 0x09 || b == 0x0a || b == 0x0c || b == 0x0d

/-- The values of the group that is not complete yet, and how many of them are padding. -/
structure Decoding where
  quad : List Nat := []
  pad : Nat := 0
  ended : Bool := false
  out : Bytes := []

/-- The bytes of a group. -/
def Decoding.flush (s : Decoding) : Decoding :=
  match s.quad with
  | [x, y, z, u] =>
    { quad := [], pad := 0, ended := s.ended || 0 < s.pad,
      out := s.out ++ (UInt8.ofNat (x <<< 2 ||| y >>> 4) ::
        (if s.pad < 2 then [UInt8.ofNat (y <<< 4 ||| z >>> 2)] else []) ++
        (if s.pad < 1 then [UInt8.ofNat (z <<< 6 ||| u)] else [])) }
  | _ => s

def Decoding.step (s : Decoding) (b : UInt8) : Option Decoding :=
  if isAsciiWhitespace b then some s
  else if s.ended then none
  else if b = 0x3d then some { s with pad := s.pad + 1, quad := s.quad ++ [0] }.flush
  else if s.pad ≠ 0 then none
  else (base64Value b).map fun v => { s with quad := s.quad ++ [v] }.flush

def base64DecodeBytes (input : Bytes) : Option Bytes :=
  (input.foldlM Decoding.step {}).bind fun s => if s.quad.isEmpty then some s.out else none

def base64Decode (input : String) : Option Bytes := base64DecodeBytes (asBytes input)

/-! ## Groups -/

def strip (input : Bytes) : Bytes := input.filter fun b => !isAsciiWhitespace b

/-- What is decoded of a text without white space. -/
def decodeGroups : Bytes → Option Bytes
  | [] => some []
  | a :: b :: c :: d :: rest =>
    match base64Value a, base64Value b, base64Value c, base64Value d with
    | some x, some y, some z, some u =>
      (decodeGroups rest).map ([UInt8.ofNat (x * 4 + y / 16), UInt8.ofNat (y * 16 + z / 4),
        UInt8.ofNat (z * 64 + u)] ++ ·)
    | some x, some y, some z, none =>
      if d = 0x3d ∧ rest = [] then
        some [UInt8.ofNat (x * 4 + y / 16), UInt8.ofNat (y * 16 + z / 4)]
      else none
    | some x, some y, none, _ =>
      if c = 0x3d ∧ d = 0x3d ∧ rest = [] then some [UInt8.ofNat (x * 4 + y / 16)] else none
    | some x, none, _, _ =>
      if b = 0x3d ∧ c = 0x3d ∧ d = 0x3d ∧ rest = [] then some [UInt8.ofNat (x * 4)] else none
    | none, _, _, _ =>
      if a = 0x3d ∧ b = 0x3d ∧ c = 0x3d ∧ d = 0x3d ∧ rest = [] then some [0] else none
  | _ => none

theorem foldlM_strip (input : Bytes) (s : Decoding) :
    input.foldlM Decoding.step s = (strip input).foldlM Decoding.step s := by
  induction input generalizing s with
  | nil => rfl
  | cons b input ih =>
    cases hb : isAsciiWhitespace b with
    | true =>
      have hstep : s.step b = some s := by rw [Decoding.step, if_pos hb]
      rw [List.foldlM_cons, hstep, strip, List.filter_cons_of_neg (by simp [hb])]
      exact ih s
    | false =>
      rw [strip, List.filter_cons_of_pos (by simp [hb]), List.foldlM_cons, List.foldlM_cons]
      cases s.step b with
      | none => rfl
      | some s' => exact ih s'

theorem base64Value_some {b : UInt8} {n : Nat} (h : base64Value b = some n) :
    n < 64 ∧ UInt8.ofNat (base64Char n).toNat = b ∧ isAsciiWhitespace b = false ∧ b ≠ 0x3d := by
  have hall : ∀ i : Fin 256, ∀ n ∈ base64Value (UInt8.ofNat i),
      n < 64 ∧ UInt8.ofNat (base64Char n).toNat = UInt8.ofNat i ∧
        isAsciiWhitespace (UInt8.ofNat i) = false ∧ UInt8.ofNat i ≠ 0x3d := by
    simp only [Http2.base64Char_eq]
    decide +kernel
  have hb := hall ⟨b.toNat, b.toNat_lt⟩ n
  rw [UInt8.ofNat_toNat] at hb
  exact hb h

section

variable {s : Decoding} {b : UInt8} {v : Nat}

theorem step_data (hv : base64Value b = some v) (hended : s.ended = false) (hpad : s.pad = 0) :
    s.step b = some { s with quad := s.quad ++ [v] }.flush := by
  obtain ⟨-, -, hblank, hne⟩ := base64Value_some hv
  simp [Decoding.step, hblank, hended, hne, hpad, hv]

theorem step_pad (hended : s.ended = false) :
    s.step 0x3d = some { s with pad := s.pad + 1, quad := s.quad ++ [0] }.flush := by
  have hblank : isAsciiWhitespace 0x3d = false := by decide
  simp [Decoding.step, hblank, hended]

theorem step_ended (hblank : isAsciiWhitespace b = false) (hended : s.ended = true) :
    s.step b = none := by
  simp [Decoding.step, hblank, hended]

theorem step_stray (hblank : isAsciiWhitespace b = false) (hne : b ≠ 0x3d)
    (h : s.pad ≠ 0 ∨ base64Value b = none) : s.step b = none := by
  rcases h with h | h
  · simp [Decoding.step, hblank, hne, h]
  · simp [Decoding.step, hblank, hne, h]

end

def finish (s : Decoding) : Option Bytes := if s.quad.isEmpty then some s.out else none

/-- What the decoder makes of the rest of the input. -/
def rest (s : Decoding) (l : Bytes) : Option Bytes := (l.foldlM Decoding.step s).bind finish

theorem rest_cons {s s' : Decoding} {b : UInt8} (h : s.step b = some s') (l : Bytes) :
    rest s (b :: l) = rest s' l := by
  rw [rest, List.foldlM_cons, h]
  rfl

theorem rest_none {s : Decoding} {b : UInt8} (h : s.step b = none) (l : Bytes) :
    rest s (b :: l) = none := by
  rw [rest, List.foldlM_cons, h]
  rfl

theorem flush_of_length {s : Decoding} (h : s.quad.length ≠ 4) : s.flush = s := by
  unfold Decoding.flush
  split
  · rename_i hquad
    exact absurd (congrArg List.length hquad) h
  · rfl

theorem flush_of_pad {s : Decoding} (h : s.quad.length = 4) (hpad : 0 < s.pad) :
    s.flush.ended = true ∧ s.flush.quad = [] := by
  match s, h with
  | ⟨[x, y, z, u], pad, ended, out⟩, _ => simpa [Decoding.flush] using .inr hpad

variable {l : Bytes}

theorem rest_ended {s : Decoding} (hended : s.ended = true) (hquad : s.quad = [])
    (hl : ∀ b ∈ l, isAsciiWhitespace b = false) :
    rest s l = if l = [] then some s.out else none := by
  cases l with
  | nil => simp [rest, finish, hquad]
  | cons b l =>
    rw [rest_none (step_ended (hl b List.mem_cons_self) hended), if_neg (List.cons_ne_nil b l)]

/-- Once padding has begun, there is padding up to the end of the group, and nothing else. -/
theorem rest_padded {quad : List Nat} {pad k : Nat} (out : Bytes)
    (hl : ∀ b ∈ l, isAsciiWhitespace b = false) (hlen : quad.length + (k + 1) = 4)
    (hne : l ≠ [] ∨ quad ≠ []) (hpad : 0 < pad ∨ ∀ b ∈ l.head?, base64Value b = none) :
    rest ⟨quad, pad, false, out⟩ l = if l = List.replicate (k + 1) 0x3d then
      some (Decoding.flush ⟨quad ++ List.replicate (k + 1) 0, pad + (k + 1), false, out⟩).out
    else none := by
  induction k generalizing l quad pad with
  | zero =>
    cases l with
    | nil =>
      have hquad : quad ≠ [] := hne.resolve_left (not_not.mpr rfl)
      simp [rest, finish, hquad]
    | cons b l =>
      by_cases hb : b = 0x3d
      · subst hb
        obtain ⟨hended, hnil⟩ := flush_of_pad (s := ⟨quad ++ [0], pad + 1, false, out⟩)
          (by simpa using hlen) (Nat.succ_pos pad)
        rw [rest_cons (step_pad rfl), rest_ended hended hnil fun c hc =>
          hl c (List.mem_cons_of_mem _ hc)]
        simp
      · have hstray : pad ≠ 0 ∨ base64Value b = none := hpad.imp Nat.ne_of_gt fun h => h b rfl
        rw [rest_none (step_stray (hl b List.mem_cons_self) hb hstray)]
        simp [hb]
  | succ k ih =>
    cases l with
    | nil =>
      have hquad : quad ≠ [] := hne.resolve_left (not_not.mpr rfl)
      simp [rest, finish, hquad, List.replicate_succ]
    | cons b l =>
      by_cases hb : b = 0x3d
      · subst hb
        have hflush : (quad ++ [0]).length ≠ 4 := by
          rw [List.length_append, List.length_singleton]
          omega
        have hlen' : (quad ++ [0]).length + (k + 1) = 4 := by
          rw [List.length_append, List.length_singleton]
          omega
        have hquad :
            quad ++ [0] ++ List.replicate (k + 1) 0 = quad ++ List.replicate (k + 1 + 1) 0 := by
          rw [List.append_assoc, List.singleton_append, ← List.replicate_succ]
        have hpads : pad + 1 + (k + 1) = pad + (k + 1 + 1) := by omega
        rw [rest_cons (step_pad rfl), flush_of_length hflush,
          ih (fun c hc => hl c (List.mem_cons_of_mem _ hc)) hlen' (.inr (by simp))
            (.inl (Nat.succ_pos pad)), hquad, hpads]
        simp [List.replicate_succ]
      · have hstray : pad ≠ 0 ∨ base64Value b = none := hpad.imp Nat.ne_of_gt fun h => h b rfl
        rw [rest_none (step_stray (hl b List.mem_cons_self) hb hstray)]
        simp [hb, List.replicate_succ]

/-- A group that is not complete. -/
theorem rest_short {quad : List Nat} {k : Nat} (out : Bytes)
    (hl : ∀ b ∈ l, isAsciiWhitespace b = false) (hlen : quad.length + (k + 1) = 4)
    (hne : l ≠ [] ∨ quad ≠ []) (hshort : l.length < k + 1) :
    rest ⟨quad, 0, false, out⟩ l = none := by
  induction l generalizing quad k with
  | nil =>
    have hquad : quad ≠ [] := hne.resolve_left (not_not.mpr rfl)
    simp [rest, finish, hquad]
  | cons b l ih =>
    cases hv : base64Value b with
    | some v =>
      rw [List.length_cons] at hshort
      obtain ⟨k, rfl⟩ : ∃ j, k = j + 1 := ⟨k - 1, by omega⟩
      have hflush : (quad ++ [v]).length ≠ 4 := by
        rw [List.length_append, List.length_singleton]
        omega
      rw [rest_cons (step_data hv rfl rfl), flush_of_length hflush]
      have hlen' : (quad ++ [v]).length + (k + 1) = 4 := by
        rw [List.length_append, List.length_singleton]
        omega
      exact ih (fun c hc => hl c (List.mem_cons_of_mem _ hc)) hlen' (.inr (by simp)) (by omega)
    | none =>
      rw [rest_padded out hl hlen hne (.inr fun c hc => by cases hc; exact hv), if_neg]
      intro heq
      rw [heq, List.length_replicate] at hshort
      omega

theorem rest_data {quad : List Nat} {b : UInt8} {v : Nat} (out : Bytes)
    (hv : base64Value b = some v) (hlen : quad.length ≠ 3) (l : Bytes) :
    rest ⟨quad, 0, false, out⟩ (b :: l) = rest ⟨quad ++ [v], 0, false, out⟩ l := by
  rw [rest_cons (step_data hv rfl rfl), flush_of_length]
  simpa using hlen

theorem shiftLeft_or {x y i : Nat} (h : y < 2 ^ i) : x <<< i ||| y = x * 2 ^ i + y := by
  rw [← Nat.shiftLeft_add_eq_or_of_lt h, Nat.shiftLeft_eq]

theorem flush_quad {x y z u : Nat} (hy : y < 64) (hz : z < 64) (hu : u < 64) (pad : Nat)
    (out : Bytes) : Decoding.flush ⟨[x, y, z, u], pad, false, out⟩ =
      ⟨[], 0, 0 < pad, out ++ (UInt8.ofNat (x * 4 + y / 16) ::
        (if pad < 2 then [UInt8.ofNat (y * 16 + z / 4)] else []) ++
        (if pad < 1 then [UInt8.ofNat (z * 64 + u)] else []))⟩ := by
  have hxy : x <<< 2 ||| y >>> 4 = x * 4 + y / 16 := by
    rw [Nat.shiftRight_eq_div_pow]
    exact shiftLeft_or (by omega)
  have hyz : y <<< 4 ||| z >>> 2 = y * 16 + z / 4 := by
    rw [Nat.shiftRight_eq_div_pow]
    exact shiftLeft_or (by omega)
  have hzu : z <<< 6 ||| u = z * 64 + u := shiftLeft_or hu
  simp only [Decoding.flush, hxy, hyz, hzu, Bool.false_or]

theorem rest_groups (hl : ∀ b ∈ l, isAsciiWhitespace b = false) (out : Bytes) :
    rest { out := out } l = (decodeGroups l).map (out ++ ·) := by
  fun_induction decodeGroups l generalizing out with
  | case1 => simp [rest, finish]
  | case2 a b c d more x y z u hd hc hb ha ih =>
    obtain ⟨-, hl₁⟩ := List.forall_mem_cons.mp hl
    obtain ⟨-, hl₂⟩ := List.forall_mem_cons.mp hl₁
    obtain ⟨-, hl₃⟩ := List.forall_mem_cons.mp hl₂
    have hy := (base64Value_some hb).1
    have hz := (base64Value_some hc).1
    have hu := (base64Value_some hd).1
    have hflush := flush_quad (x := x) hy hz hu 0 out
    rw [rest_data out ha (by simp), rest_data out hb (by simp), rest_data out hc (by simp),
      rest_cons (step_data hd rfl rfl)]
    refine (congrArg (rest · more) hflush).trans ?_
    refine (ih (List.forall_mem_cons.mp hl₃).2 _).trans ?_
    rw [Option.map_map]
    congr 1
    funext bytes
    simp
  | case3 a b c d more x y z hd hc hb ha h =>
    obtain ⟨-, hl₁⟩ := List.forall_mem_cons.mp hl
    obtain ⟨-, hl₂⟩ := List.forall_mem_cons.mp hl₁
    obtain ⟨-, hl₃⟩ := List.forall_mem_cons.mp hl₂
    rw [rest_data out ha (by simp), rest_data out hb (by simp), rest_data out hc (by simp),
      rest_padded (k := 0) out hl₃ rfl (.inl (by simp)) (.inr (by simpa using hd)),
      if_pos (by simpa using h)]
    have hflush := flush_quad (x := x) (base64Value_some hb).1 (base64Value_some hc).1
      (show 0 < 64 by decide) 1 out
    exact congrArg (fun s => some s.out) hflush
  | case4 a b c d more x y z hd hc hb ha h =>
    obtain ⟨-, hl₁⟩ := List.forall_mem_cons.mp hl
    obtain ⟨-, hl₂⟩ := List.forall_mem_cons.mp hl₁
    obtain ⟨-, hl₃⟩ := List.forall_mem_cons.mp hl₂
    rw [rest_data out ha (by simp), rest_data out hb (by simp), rest_data out hc (by simp),
      rest_padded (k := 0) out hl₃ rfl (.inl (by simp)) (.inr (by simpa using hd)),
      if_neg (by simpa using h)]
    rfl
  | case5 a b c d more x y hc hb ha h =>
    obtain ⟨-, hl₁⟩ := List.forall_mem_cons.mp hl
    obtain ⟨-, hl₂⟩ := List.forall_mem_cons.mp hl₁
    rw [rest_data out ha (by simp), rest_data out hb (by simp),
      rest_padded (k := 1) out hl₂ rfl (.inl (by simp)) (.inr (by simpa using hc)),
      if_pos (by simpa [List.replicate] using h)]
    have hflush := flush_quad (x := x) (base64Value_some hb).1 (show 0 < 64 by decide)
      (show 0 < 64 by decide) 2 out
    exact congrArg (fun s => some s.out) hflush
  | case6 a b c d more x y hc hb ha h =>
    obtain ⟨-, hl₁⟩ := List.forall_mem_cons.mp hl
    obtain ⟨-, hl₂⟩ := List.forall_mem_cons.mp hl₁
    rw [rest_data out ha (by simp), rest_data out hb (by simp),
      rest_padded (k := 1) out hl₂ rfl (.inl (by simp)) (.inr (by simpa using hc)),
      if_neg (by simpa [List.replicate] using h)]
    rfl
  | case7 a b c d more x hb ha h =>
    obtain ⟨-, hl₁⟩ := List.forall_mem_cons.mp hl
    rw [rest_data out ha (by simp),
      rest_padded (k := 2) out hl₁ rfl (.inl (by simp)) (.inr (by simpa using hb)),
      if_pos (by simpa [List.replicate] using h)]
    have hflush := flush_quad (x := x) (show 0 < 64 by decide) (show 0 < 64 by decide)
      (show 0 < 64 by decide) 3 out
    exact congrArg (fun s => some s.out) hflush
  | case8 a b c d more x hb ha h =>
    obtain ⟨-, hl₁⟩ := List.forall_mem_cons.mp hl
    rw [rest_data out ha (by simp),
      rest_padded (k := 2) out hl₁ rfl (.inl (by simp)) (.inr (by simpa using hb)),
      if_neg (by simpa [List.replicate] using h)]
    rfl
  | case9 a b c d more ha h =>
    rw [rest_padded (k := 3) out hl rfl (.inl (by simp)) (.inr (by simpa using ha)),
      if_pos (by simpa [List.replicate] using h)]
    rfl
  | case10 a b c d more ha h =>
    rw [rest_padded (k := 3) out hl rfl (.inl (by simp)) (.inr (by simpa using ha)),
      if_neg (by simpa [List.replicate] using h)]
    rfl
  | case11 l hne hshort =>
    refine rest_short (k := 3) out hl rfl (.inl hne) ?_
    match l, hshort with
    | [], _ => exact Nat.zero_lt_succ 3
    | [_], _ => exact (by decide : 1 < 4)
    | [_, _], _ => exact (by decide : 2 < 4)
    | [_, _, _], _ => exact (by decide : 3 < 4)
    | a :: b :: c :: d :: more, hshort => exact (hshort a b c d more rfl).elim

/-- White space apart, the decoder reads groups. -/
theorem base64DecodeBytes_eq (input : Bytes) :
    base64DecodeBytes input = decodeGroups (strip input) := by
  have hstrip : ∀ b ∈ strip input, isAsciiWhitespace b = false := by
    intro b hb
    simpa using (List.mem_filter.mp hb).2
  have hgroups := rest_groups hstrip []
  rw [rest, ← foldlM_strip] at hgroups
  rw [base64DecodeBytes]
  refine hgroups.trans ?_
  simp

/-! ## There and back -/

theorem base64Value_encoded {n : Nat} (h : n < 64) :
    base64Value (UInt8.ofNat (base64Char n).toNat) = some n := Net.base64Value_char h

theorem ofNat_byte {m n : Nat} (h : m % 256 = n % 256) : UInt8.ofNat m = UInt8.ofNat n :=
  UInt8.toNat_inj.mp (by rw [UInt8.toNat_ofNat', UInt8.toNat_ofNat', h])

theorem decodeGroups_encoded (l : List Nat) (h : ∀ n ∈ l, n < 256) :
    decodeGroups (encoded l) = some (l.map UInt8.ofNat) := by
  have hpad : base64Value (UInt8.ofNat '='.toNat) = none := by decide
  have heq : UInt8.ofNat '='.toNat = 0x3d := rfl
  induction l using Http2.base64Chars.induct with
  | case1 b₀ b₁ b₂ rest ih =>
    have h₀ := h b₀ (by simp)
    have h₁ := h b₁ (by simp)
    have h₂ := h b₂ (by simp)
    have hrest := ih fun n hn => h n (by simp [hn])
    have e₀ : b₀ / 4 * 4 + (b₀ % 4 * 16 + b₁ / 16) / 16 = b₀ := by omega
    have e₁ : UInt8.ofNat ((b₀ % 4 * 16 + b₁ / 16) * 16 + (b₁ % 16 * 4 + b₂ / 64) / 4) =
        UInt8.ofNat b₁ := ofNat_byte (by omega)
    have e₂ : UInt8.ofNat ((b₁ % 16 * 4 + b₂ / 64) * 64 + b₂ % 64) = UInt8.ofNat b₂ :=
      ofNat_byte (by omega)
    rw [encoded] at hrest
    rw [encoded, base64Chars, List.map_cons, List.map_cons, List.map_cons, List.map_cons,
      decodeGroups, base64Value_encoded (by omega), base64Value_encoded (by omega),
      base64Value_encoded (by omega), base64Value_encoded (by omega)]
    simp only [hrest, e₀, e₁, e₂, List.map_cons, Option.map_some, List.cons_append, List.nil_append]
  | case2 b₀ b₁ =>
    have h₀ := h b₀ (by simp)
    have h₁ := h b₁ (by simp)
    have e₀ : b₀ / 4 * 4 + (b₀ % 4 * 16 + b₁ / 16) / 16 = b₀ := by omega
    have e₁ : UInt8.ofNat ((b₀ % 4 * 16 + b₁ / 16) * 16 + b₁ % 16 * 4 / 4) = UInt8.ofNat b₁ :=
      ofNat_byte (by omega)
    rw [encoded, base64Chars, List.map_cons, List.map_cons, List.map_cons, List.map_cons,
      decodeGroups, base64Value_encoded (by omega), base64Value_encoded (by omega),
      base64Value_encoded (by omega), hpad]
    simp only [heq, List.map_nil, and_self, if_true, e₀, e₁, List.map_cons]
  | case3 b₀ =>
    have h₀ := h b₀ (by simp)
    have e₀ : b₀ / 4 * 4 + b₀ % 4 * 16 / 16 = b₀ := by omega
    rw [encoded, base64Chars, List.map_cons, List.map_cons, List.map_cons, List.map_cons,
      decodeGroups, base64Value_encoded (by omega), base64Value_encoded (by omega), hpad]
    simp only [heq, List.map_nil, and_self, if_true, e₀, List.map_cons]
  | case4 => rfl

theorem strip_encoded (l : List Nat) (h : ∀ n ∈ l, n < 256) : strip (encoded l) = encoded l := by
  refine List.filter_eq_self.mpr fun b hb => ?_
  obtain ⟨c, hc, rfl⟩ := List.mem_map.mp hb
  have hvisible := (Net.base64Chars_ascii l h c hc).2
  have hblank : ∀ i : Fin 256, Net.isVisible (UInt8.ofNat i) = true →
      (!isAsciiWhitespace (UInt8.ofNat i)) = true := by decide +kernel
  have hb := hblank ⟨(UInt8.ofNat c.toNat).toNat, (UInt8.ofNat c.toNat).toNat_lt⟩
  rw [UInt8.ofNat_toNat] at hb
  exact hb hvisible

theorem base64Decode_base64Encode (input : Bytes) :
    base64Decode (base64Encode input) = some input := by
  rw [base64Decode, Net.asBytes_base64Encode, base64DecodeBytes_eq,
    strip_encoded _ Net.lt_of_mem_toNat, decodeGroups_encoded _ Net.lt_of_mem_toNat, List.map_map]
  congr 1
  exact List.map_id'' (fun b => UInt8.ofNat_toNat) input

/-- The same characters, but for the bits of the last one before the padding that no byte has. -/
def Alike (canonical given : Bytes) : Prop :=
  given = canonical ∨ ∃ front c c' v v' k, (k = 1 ∨ k = 2) ∧
    canonical = front ++ c :: List.replicate k 0x3d ∧ given = front ++ c' :: List.replicate k 0x3d ∧
      base64Value c = some v ∧ base64Value c' = some v' ∧ v / 4 ^ k = v' / 4 ^ k

theorem Alike.append {canonical given : Bytes} (h : Alike canonical given) (group : Bytes) :
    Alike (group ++ canonical) (group ++ given) := by
  rcases h with rfl | ⟨front, c, c', v, v', k, hk, rfl, rfl, hvalues⟩
  · exact .inl rfl
  · exact .inr ⟨group ++ front, c, c', v, v', k, hk, (List.append_assoc ..).symm,
      (List.append_assoc ..).symm, hvalues⟩

/-- Whole groups, and a last one that holds less than two characters of data. -/
def Truncated (l : Bytes) : Prop :=
  ∃ front c, l = front ++ [c, 0x3d, 0x3d, 0x3d] ∧ 4 ∣ front.length ∧
    (∀ b ∈ front, (base64Value b).isSome) ∧ ((base64Value c).isSome ∨ c = 0x3d)

theorem Truncated.append {l : Bytes} (h : Truncated l) {a b c d : UInt8}
    (hgroup : ∀ e ∈ [a, b, c, d], (base64Value e).isSome) : Truncated (a :: b :: c :: d :: l) := by
  obtain ⟨front, e, rfl, hlen, hfront, he⟩ := h
  refine ⟨[a, b, c, d] ++ front, e, by simp, ?_, ?_, he⟩
  · rw [List.length_append]
    exact Nat.dvd_add ⟨1, rfl⟩ hlen
  · intro g hg
    exact (List.mem_append.mp hg).elim (hgroup g) (hfront g)

/-- What is decoded without such a group is encoded to what was there. -/
theorem alike_of_decodeGroups {l x : Bytes} (h : decodeGroups l = some x) (ht : ¬Truncated l) :
    Alike (encoded (x.map UInt8.toNat)) l := by
  have hpad : UInt8.ofNat '='.toNat = 0x3d := rfl
  fun_induction decodeGroups l generalizing x with
  | case1 =>
    cases h
    exact .inl rfl
  | case2 a b c d more p q r t hd hc hb ha ih =>
    obtain ⟨bytes, hbytes, rfl⟩ := Option.map_eq_some_iff.mp h
    obtain ⟨hp, rfl, -, -⟩ := base64Value_some ha
    obtain ⟨hq, rfl, -, -⟩ := base64Value_some hb
    obtain ⟨hr, rfl, -, -⟩ := base64Value_some hc
    obtain ⟨ht', rfl, -, -⟩ := base64Value_some hd
    have hmore := ih hbytes fun hmore => ht (hmore.append (by simp [ha, hb, hc, hd]))
    have e₀ : (p * 4 + q / 16) % 256 / 4 = p := by omega
    have e₁ : q / 16 % 4 * 16 + (q * 16 + r / 4) % 256 / 16 = q := by omega
    have e₂ : r / 4 % 16 * 4 + (r * 64 + t) % 256 / 64 = r := by omega
    have hgroup := hmore.append [UInt8.ofNat (base64Char p).toNat, UInt8.ofNat (base64Char q).toNat,
      UInt8.ofNat (base64Char r).toNat, UInt8.ofNat (base64Char t).toNat]
    simpa [encoded, base64Chars, e₀, e₁, e₂, Nat.mod_eq_of_lt ht'] using hgroup
  | case3 a b c d more p q r hd hc hb ha hend =>
    obtain ⟨hp, rfl, -, -⟩ := base64Value_some ha
    obtain ⟨hq, rfl, -, -⟩ := base64Value_some hb
    obtain ⟨hr, hr', -, -⟩ := base64Value_some hc
    obtain ⟨rfl, rfl⟩ := hend
    cases h
    have e₀ : (p * 4 + q / 16) % 256 / 4 = p := by omega
    have e₁ : q / 16 % 4 * 16 + (q * 16 + r / 4) % 256 / 16 = q := by omega
    have e₂ : r / 4 % 16 * 4 = r / 4 * 4 := by omega
    refine .inr ⟨[UInt8.ofNat (base64Char p).toNat, UInt8.ofNat (base64Char q).toNat],
      UInt8.ofNat (base64Char (r / 4 * 4)).toNat, c, r / 4 * 4, r, 1, .inl rfl, ?_, rfl,
      base64Value_encoded (by omega), hc, by omega⟩
    simp [encoded, base64Chars, e₀, e₁, e₂]
  | case4 => cases h
  | case5 a b c d more p q hc hb ha hend =>
    obtain ⟨hp, rfl, -, -⟩ := base64Value_some ha
    obtain ⟨rfl, rfl, rfl⟩ := hend
    cases h
    have hq := (base64Value_some hb).1
    have e₀ : (p * 4 + q / 16) % 256 / 4 = p := by omega
    have e₁ : q / 16 % 4 * 16 = q / 16 * 16 := by omega
    refine .inr ⟨[UInt8.ofNat (base64Char p).toNat], UInt8.ofNat (base64Char (q / 16 * 16)).toNat,
      b, q / 16 * 16, q, 2, .inr rfl, ?_, rfl, base64Value_encoded (by omega), hb, by omega⟩
    simp [encoded, base64Chars, e₀, e₁]
  | case6 => cases h
  | case7 a b c d more p hb ha hend =>
    obtain ⟨rfl, rfl, rfl, rfl⟩ := hend
    exact absurd ⟨[], a, rfl, by simp, by simp, .inl (by simp [ha])⟩ ht
  | case8 => cases h
  | case9 a b c d more ha hend =>
    obtain ⟨rfl, rfl, rfl, rfl, rfl⟩ := hend
    exact absurd ⟨[], 0x3d, rfl, by simp, by simp, .inr rfl⟩ ht
  | case10 => cases h
  | case11 => cases h

theorem count_encoded (l : List Nat) (h : ∀ n ∈ l, n < 256) : (encoded l).count 0x3d ≤ 2 := by
  have hchar {n : Nat} (hn : n < 64) := (Net.base64Char_toNat hn).2.2
  induction l using Http2.base64Chars.induct with
  | case1 b₀ b₁ b₂ rest ih =>
    have h₀ := h b₀ (by simp)
    have h₁ := h b₁ (by simp)
    have h₂ := h b₂ (by simp)
    have hrest := ih fun n hn => h n (by simp [hn])
    rw [encoded] at hrest
    simpa [encoded, base64Chars, hchar (n := b₀ / 4) (by omega),
      hchar (n := b₀ % 4 * 16 + b₁ / 16) (by omega), hchar (n := b₁ % 16 * 4 + b₂ / 64) (by omega),
      hchar (n := b₂ % 64) (by omega)] using hrest
  | case2 b₀ b₁ =>
    have h₀ := h b₀ (by simp)
    have h₁ := h b₁ (by simp)
    simp [encoded, base64Chars, hchar (n := b₀ / 4) (by omega),
      hchar (n := b₀ % 4 * 16 + b₁ / 16) (by omega), hchar (n := b₁ % 16 * 4) (by omega)]
  | case3 b₀ =>
    have h₀ := h b₀ (by simp)
    simp [encoded, base64Chars, hchar (n := b₀ / 4) (by omega),
      hchar (n := b₀ % 4 * 16) (by omega)]
  | case4 => simp [encoded, base64Chars]

theorem Alike.count {canonical given : Bytes} (h : Alike canonical given) :
    given.count 0x3d = canonical.count 0x3d := by
  rcases h with rfl | ⟨front, c, c', v, v', k, -, rfl, rfl, hc, hc', -⟩
  · rfl
  · have hne := (base64Value_some hc).2.2.2
    have hne' := (base64Value_some hc').2.2.2
    simp [hne, hne']

theorem not_alike_of_truncated {l : Bytes} (ht : Truncated l) (x : Bytes) :
    ¬Alike (encoded (x.map UInt8.toNat)) l := by
  intro h
  obtain ⟨front, c, rfl, -⟩ := ht
  have hcount := h.count
  have hle := count_encoded (x.map UInt8.toNat) Net.lt_of_mem_toNat
  simp [List.count_cons] at hcount
  omega

theorem exists_of_truncated {l : Bytes} (ht : Truncated l) : ∃ x, decodeGroups l = some x := by
  obtain ⟨front, c, rfl, ⟨groups, hlen⟩, hfront, hc⟩ := ht
  have hpad : base64Value 0x3d = none := rfl
  induction groups generalizing front with
  | zero =>
    obtain rfl := List.eq_nil_of_length_eq_zero hlen
    rcases hc with hc | rfl
    · obtain ⟨v, hv⟩ := Option.isSome_iff_exists.mp hc
      exact ⟨[UInt8.ofNat (v * 4)], by simp [decodeGroups, hv, hpad]⟩
    · exact ⟨[0], rfl⟩
  | succ groups ih =>
    match front with
    | a :: b :: d :: e :: front =>
      simp only [List.length_cons] at hlen
      obtain ⟨x, hx⟩ := ih front (by omega) fun g hg => hfront g (by simp [hg])
      obtain ⟨p, hp⟩ := Option.isSome_iff_exists.mp (hfront a (by simp))
      obtain ⟨q, hq⟩ := Option.isSome_iff_exists.mp (hfront b (by simp))
      obtain ⟨r, hr⟩ := Option.isSome_iff_exists.mp (hfront d (by simp))
      obtain ⟨t, ht⟩ := Option.isSome_iff_exists.mp (hfront e (by simp))
      exact ⟨_, by simp only [List.cons_append, decodeGroups, hp, hq, hr, ht, hx]; rfl⟩
    | [] | [_] | [_, _] | [_, _, _] =>
      simp only [List.length_nil, List.length_cons] at hlen
      omega

/-- What is encoded is decoded again, and what is decoded is encoded to what was given without its
white space, up to bits that no byte has, just where no group is truncated. -/
theorem base64_exact (input : Bytes) (s : String) :
    base64Decode (base64Encode input) = some input ∧
    ((∀ x, base64Decode s = some x → Alike (asBytes (base64Encode x)) (strip (asBytes s))) ↔
      ¬Truncated (strip (asBytes s))) := by
  refine ⟨base64Decode_base64Encode input, fun h ht => ?_, fun ht x hx => ?_⟩
  · obtain ⟨x, hx⟩ := exists_of_truncated ht
    rw [← base64DecodeBytes_eq] at hx
    have halike := h x hx
    rw [Net.asBytes_base64Encode] at halike
    exact not_alike_of_truncated ht x halike
  · rw [base64Decode, base64DecodeBytes_eq] at hx
    rw [Net.asBytes_base64Encode]
    exact alike_of_decodeGroups hx ht

/-- A group of one character, and one of none. -/
theorem not_base64 :
    (base64Decode "A===" = some [0] ∧
      ¬Alike (asBytes (base64Encode [0])) (strip (asBytes "A==="))) ∧
    base64Decode "====" = some [0] ∧
      ¬Alike (asBytes (base64Encode [0])) (strip (asBytes "====")) := by
  refine ⟨⟨by decide, fun h => ?_⟩, by decide, fun h => ?_⟩
  · exact absurd h.count (by decide +kernel)
  · exact absurd h.count (by decide +kernel)

end Rsurl.Tls
