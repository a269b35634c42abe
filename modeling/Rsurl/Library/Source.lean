import Rsurl.Library.Framing

/-!
# Sources

A source is asked for elements and gives some, no more than it is asked for; one that gives none has
ended. A `Supply` says what a source still has to give before it fails or ends, and where it stands
after so many of them: who asks for no more than that gets it, however it is cut.
-/

namespace Rsurl.Library

open Framing (Read unread)

variable {σ β ε ι : Type*}

abbrev Source (σ β ε : Type*) := Nat → σ → Outcome ε σ (List β)

namespace Source

variable {src : Source σ β ε} {s s' : σ} {n : Nat}

/-- So many elements, or those that are there before the end. -/
def upTo (src : Source σ β ε) (n : Nat) (s : σ) : Outcome ε σ (List β) :=
  if n = 0 then .ok [] s
  else match src n s with
    | .error e s => .error e s
    | .ok [] s => .ok [] s
    | .ok (first :: more) s =>
      (upTo src (n - (more.length + 1)) s).andThen fun got s => .ok (first :: more ++ got) s
termination_by n
decreasing_by omega

/-- So many elements; `short` when there are fewer. -/
def exact (src : Source σ β ε) (short : ε) (n : Nat) (s : σ) : Outcome ε σ (List β) :=
  (upTo src n s).andThen fun got s => if got.length < n then .error short s else .ok got s

/-- What a source has left, and where it stands after so many elements. -/
structure Supply (src : Source σ β ε) where
  pending : σ → List β
  skip : Nat → σ → σ
  skip_zero : ∀ s, skip 0 s = s
  skip_skip : ∀ s k l, k ≤ (pending s).length → skip l (skip k s) = skip (k + l) s
  pending_skip : ∀ s k, k ≤ (pending s).length → pending (skip k s) = (pending s).drop k
  gives : ∀ s n, 0 < n → pending s ≠ [] → ∃ k, 0 < k ∧ k ≤ n ∧ k ≤ (pending s).length ∧
    src n s = .ok ((pending s).take k) (skip k s)
  stops : ∀ s n got s', 0 < n → pending s = [] → src n s = .ok got s' → got = []

variable (sup : Supply src)

theorem upTo_of_le (h : n ≤ (sup.pending s).length) :
    upTo src n s = .ok ((sup.pending s).take n) (sup.skip n s) := by
  induction n using Nat.strongRecOn generalizing s with
  | ind n ih =>
    rw [upTo]
    split
    · rename_i hn
      rw [hn, sup.skip_zero, List.take_zero]
    rename_i hn
    have hne : sup.pending s ≠ [] := by
      intro hnil
      rw [hnil, List.length_nil] at h
      omega
    obtain ⟨k, hpos, hkn, hk, hread⟩ := sup.gives s n (by omega) hne
    have hlen : ((sup.pending s).take k).length = k := by rw [List.length_take]; omega
    rw [hread]
    cases htake : (sup.pending s).take k with
    | nil =>
      rw [htake, List.length_nil] at hlen
      omega
    | cons first more =>
      have hmore : more.length + 1 = k := by rw [← hlen, htake, List.length_cons]
      have hrest := ih (n - k) (by omega) (s := sup.skip k s) (by
        rw [sup.pending_skip s k hk, List.length_drop]
        omega)
      dsimp only
      rw [hmore, hrest, Outcome.ok_andThen, ← htake, sup.pending_skip s k hk,
        sup.skip_skip s k _ hk, ← List.take_add, Nat.add_sub_cancel' hkn]

theorem exact_of_le {short : ε} (h : n ≤ (sup.pending s).length) :
    exact src short n s = .ok ((sup.pending s).take n) (sup.skip n s) := by
  rw [exact, upTo_of_le sup h, Outcome.ok_andThen, if_neg]
  rw [List.length_take]
  omega

/-- No more is got than there is. -/
theorem length_upTo_le {got : List β} (h : upTo src n s = .ok got s') :
    got.length ≤ (sup.pending s).length := by
  induction n using Nat.strongRecOn generalizing s s' got with
  | ind n ih =>
    rw [upTo] at h
    split at h
    · cases h
      exact Nat.zero_le _
    rename_i hn
    by_cases hnil : sup.pending s = []
    · cases hread : src n s with
      | error e t =>
        rw [hread] at h
        cases h
      | ok first t =>
        rw [hread, sup.stops s n first t (by omega) hnil hread] at h
        cases h
        exact Nat.zero_le _
    · obtain ⟨k, hpos, hkn, hk, hread⟩ := sup.gives s n (by omega) hnil
      have hlen : ((sup.pending s).take k).length = k := by rw [List.length_take]; omega
      rw [hread] at h
      cases htake : (sup.pending s).take k with
      | nil =>
        rw [htake, List.length_nil] at hlen
        omega
      | cons first more =>
        have hmore : more.length + 1 = k := by rw [← hlen, htake, List.length_cons]
        rw [htake] at h
        dsimp only at h
        obtain ⟨rest, t, hrest, hok⟩ := Outcome.andThen_eq_ok.mp h
        cases hok
        have hle := ih _ (by omega) hrest
        rw [sup.pending_skip s k hk, List.length_drop] at hle
        rw [List.length_append, List.length_cons]
        omega

theorem le_of_exact_eq_ok {short : ε} {got : List β} (h : exact src short n s = .ok got s') :
    n ≤ (sup.pending s).length := by
  obtain ⟨more, t, hmore, hok⟩ := Outcome.andThen_eq_ok.mp h
  have hle := length_upTo_le sup hmore
  split at hok
  · cases hok
  · omega

/-- What is given is gone, and a failure takes nothing. -/
def Conserves (src : Source σ β ε) (left : σ → List β) : Prop :=
  ∀ n s, (src n s).Post (fun got s' => got.length ≤ n ∧ left s = got ++ left s')
    (fun _ s' => left s' = left s)

/-- No more is gone than was asked for, whichever way it ends. -/
theorem Conserves.exact {left : σ → List β} (hsrc : Conserves src left) (short : ε) (n : Nat)
    (s : σ) : ∃ taken, taken.length ≤ n ∧ left s = taken ++ left (exact src short n s).state := by
  have hupTo : ∀ n s, (upTo src n s).Post (fun got s' => got.length ≤ n ∧ left s = got ++ left s')
      (fun _ s' => ∃ taken, taken.length ≤ n ∧ left s = taken ++ left s') := by
    intro n s
    fun_induction upTo src n s with
    | case1 s => exact ⟨le_rfl, rfl⟩
    | case2 n s hn e t hread =>
      have hfail := hsrc n s
      rw [hread] at hfail
      exact ⟨[], Nat.zero_le _, hfail.symm⟩
    | case3 n s hn t hread =>
      have hend := hsrc n s
      rw [hread] at hend
      exact hend
    | case4 n s hn first more t hread ih =>
      have hgot := hsrc n s
      rw [hread] at hgot
      obtain ⟨hlen, heq⟩ := hgot
      rw [List.length_cons] at hlen
      cases hrest : upTo src (n - (more.length + 1)) t with
      | ok got t' =>
        rw [hrest] at ih
        refine ⟨?_, ?_⟩
        · have := ih.1
          rw [List.length_append, List.length_cons]
          omega
        · rw [heq, ih.2, List.append_assoc]
      | error e t' =>
        rw [hrest] at ih
        obtain ⟨taken, htaken, heq'⟩ := ih
        refine ⟨first :: more ++ taken, ?_, ?_⟩
        · rw [List.length_append, List.length_cons]
          omega
        · rw [heq, heq', List.append_assoc]
  have h := hupTo n s
  rw [Source.exact]
  cases hread : upTo src n s with
  | error e t =>
    rw [hread] at h
    exact h
  | ok got t =>
    rw [hread] at h
    refine ⟨got, h.1, ?_⟩
    rw [Outcome.ok_andThen]
    split <;> exact h.2

/-! ## The reads of a stream -/

/-- Put what was not taken back in front. -/
def leftover : List β → List (Read ι β) → List (Read ι β)
  | [], reads => reads
  | first :: more, reads => .data first more :: reads

def ofReads : Source (List (Read ι β)) β ι
  | _, [] => .ok [] []
  | _, .failed e :: rest => .error e rest
  | n, .data first more :: rest =>
    .ok ((first :: more).take n) (leftover ((first :: more).drop n) rest)

/-- What comes before the first failure but for so many that are forgiven. -/
def delivered (forgive : ι → Bool) : Nat → List (Read ι β) → List β
  | _, [] => []
  | budget, .data first more :: rest => first :: more ++ delivered forgive budget rest
  | 0, .failed _ :: _ => []
  | budget + 1, .failed e :: rest => if forgive e then delivered forgive budget rest else []

/-- What is left of the reads after so many bytes. -/
def after : Nat → List (Read ι β) → List (Read ι β)
  | 0, reads => reads
  | _ + 1, [] => []
  | n + 1, .failed _ :: rest => after (n + 1) rest
  | n + 1, .data _ more :: rest =>
    if n < more.length then leftover (more.drop n) rest else after (n - more.length) rest

/-- How many failures there are before the last of so many bytes. -/
def spent : Nat → List (Read ι β) → Nat
  | 0, _ => 0
  | _ + 1, [] => 0
  | n + 1, .failed _ :: rest => spent (n + 1) rest + 1
  | n + 1, .data _ more :: rest => if n < more.length then 0 else spent (n - more.length) rest

variable {forgive : ι → Bool} {reads : List (Read ι β)}

theorem delivered_data (budget : Nat) (first : β) (more : List β) :
    delivered forgive budget (.data first more :: reads) =
      first :: (more ++ delivered forgive budget reads) := by
  cases budget <;> rfl

@[simp] theorem after_zero (reads : List (Read ι β)) : after 0 reads = reads := by
  cases reads <;> rfl

@[simp] theorem spent_zero (reads : List (Read ι β)) : spent 0 reads = 0 := by
  cases reads <;> rfl

@[simp] theorem after_nil (n : Nat) : after n ([] : List (Read ι β)) = [] := by
  cases n <;> rfl

@[simp] theorem spent_nil (n : Nat) : spent n ([] : List (Read ι β)) = 0 := by
  cases n <;> rfl

theorem after_leftover (n : Nat) (bytes : List β) (rest : List (Read ι β)) :
    after n (leftover bytes rest) =
      if n < bytes.length then leftover (bytes.drop n) rest else after (n - bytes.length) rest := by
  cases bytes with
  | nil => rfl
  | cons first more =>
    cases n with
    | zero => rfl
    | succ n => simp [leftover, after]

theorem after_succ_data (n : Nat) (first : β) (more : List β) (rest : List (Read ι β)) :
    after (n + 1) (.data first more :: rest) = after n (leftover more rest) := by
  rw [after_leftover]
  rfl

theorem spent_leftover (n : Nat) (bytes : List β) (rest : List (Read ι β)) :
    spent n (leftover bytes rest) =
      if n < bytes.length then 0 else spent (n - bytes.length) rest := by
  cases bytes with
  | nil => rfl
  | cons first more =>
    cases n with
    | zero => rfl
    | succ n => simp [leftover, spent]

theorem delivered_leftover (budget : Nat) (bytes : List β) (rest : List (Read ι β)) :
    delivered forgive budget (leftover bytes rest) = bytes ++ delivered forgive budget rest := by
  cases bytes with
  | nil => rfl
  | cons first more => exact delivered_data budget first more

theorem unread_leftover (bytes : List β) (rest : List (Read ι β)) :
    unread [] (leftover bytes rest) = bytes ++ unread [] rest := by
  cases bytes <;> simp [leftover, unread, Read.bytes]

theorem after_after (k l : Nat) (reads : List (Read ι β)) :
    after l (after k reads) = after (k + l) reads := by
  induction reads generalizing k with
  | nil => rw [after_nil, after_nil, after_nil]
  | cons r rest ih =>
    cases k with
    | zero => rw [after, Nat.zero_add]
    | succ k =>
      rw [Nat.add_right_comm]
      cases r with
      | failed e =>
        rw [after, after, ih, Nat.add_right_comm]
      | data first more =>
        rw [after, after]
        by_cases hk : k < more.length
        · rw [if_pos hk, after_leftover, List.length_drop, List.drop_drop]
          by_cases hkl : k + l < more.length
          · rw [if_pos hkl, if_pos (by omega)]
          · rw [if_neg hkl, if_neg (by omega)]
            congr 1
            omega
        · rw [if_neg hk, if_neg (by omega), ih]
          congr 1
          omega

theorem spent_after (k l : Nat) (reads : List (Read ι β)) :
    spent k reads + spent l (after k reads) = spent (k + l) reads := by
  induction reads generalizing k with
  | nil => rw [after_nil, spent_nil, spent_nil, spent_nil]
  | cons r rest ih =>
    cases k with
    | zero => rw [spent, after, Nat.zero_add, Nat.zero_add]
    | succ k =>
      rw [Nat.add_right_comm]
      cases r with
      | failed e =>
        have hrest := ih (k + 1)
        rw [Nat.add_right_comm] at hrest
        rw [spent, after, spent]
        omega
      | data first more =>
        rw [spent, after, spent]
        by_cases hk : k < more.length
        · rw [if_pos hk, if_pos hk, spent_leftover, List.length_drop]
          by_cases hkl : k + l < more.length
          · rw [if_pos hkl, if_pos (by omega)]
          · rw [if_neg hkl, if_neg (by omega), Nat.zero_add]
            congr 1
            omega
        · rw [if_neg hk, if_neg hk, if_neg (by omega), ih]
          congr 1
          omega

theorem delivered_after {budget k : Nat} (h : k ≤ (delivered forgive budget reads).length) :
    delivered forgive (budget - spent k reads) (after k reads) =
      (delivered forgive budget reads).drop k := by
  induction reads generalizing budget k with
  | nil => simp [delivered]
  | cons r rest ih =>
    cases k with
    | zero => rfl
    | succ k =>
      cases r with
      | failed e =>
        cases budget with
        | zero => simp [delivered] at h
        | succ budget =>
          rw [delivered] at h ⊢
          rw [after, spent, Nat.add_sub_add_right]
          split at h
          · rename_i hforgive
            rw [if_pos hforgive, ih h]
          · simp at h
      | data first more =>
        rw [after, spent]
        by_cases hk : k < more.length
        · rw [if_pos hk, if_pos hk, Nat.sub_zero, delivered_leftover, delivered_data,
            List.drop_succ_cons, List.drop_append_of_le_length hk.le]
        · rw [delivered_data, List.length_cons, List.length_append] at h
          rw [if_neg hk, if_neg hk, ih (by omega), delivered_data, List.drop_succ_cons,
            List.drop_append, List.drop_of_length_le (Nat.le_of_not_lt hk), List.nil_append]

theorem unread_data (first : β) (more : List β) (rest : List (Read ι β)) :
    unread [] (.data first more :: rest) = first :: (more ++ unread [] rest) := by
  simp [unread, Read.bytes]

theorem unread_after (n : Nat) (reads : List (Read ι β)) :
    unread [] (after n reads) = (unread [] reads).drop n := by
  induction reads generalizing n with
  | nil => simp [unread]
  | cons r rest ih =>
    cases n with
    | zero => rfl
    | succ n =>
      cases r with
      | failed e => exact ih (n + 1)
      | data first more =>
        rw [after, unread_data, List.drop_succ_cons]
        by_cases hn : n < more.length
        · rw [if_pos hn, unread_leftover, List.drop_append_of_le_length hn.le]
        · rw [if_neg hn, ih, List.drop_append, List.drop_of_length_le (Nat.le_of_not_lt hn),
            List.nil_append]

/-- What is delivered is there. -/
theorem delivered_prefix (budget : Nat) (reads : List (Read ι β)) :
    delivered forgive budget reads <+: unread [] reads := by
  induction reads generalizing budget with
  | nil => exact List.nil_prefix
  | cons r rest ih =>
    cases r with
    | data first more =>
      rw [delivered_data, unread_data, List.prefix_cons_inj, List.prefix_append_right_inj]
      exact ih budget
    | failed e =>
      cases budget with
      | zero => exact List.nil_prefix
      | succ budget =>
        rw [delivered]
        split
        · exact ih budget
        · exact List.nil_prefix

theorem unread_append (front back : List (Read ι β)) :
    unread [] (front ++ back) = unread [] front ++ unread [] back := by
  simp [unread]

theorem isData_of_failures_eq_zero {r : Read ι β} (h : Framing.failures reads = 0)
    (hr : r ∈ reads) : r.isData = true := by
  have hnone := List.filter_eq_nil_iff.mp (List.length_eq_zero_iff.mp h) r hr
  simpa using hnone

/-- Reads that are forgiven deliver what they bring, and what is behind them. -/
theorem delivered_append {front back : List (Read ι β)} {budget : Nat}
    (h : ∀ e, Read.failed e ∈ front → forgive e = true) (hb : Framing.failures front ≤ budget) :
    unread [] front <+: delivered forgive budget (front ++ back) := by
  induction front generalizing budget with
  | nil => exact List.nil_prefix
  | cons r rest ih =>
    have hrest : ∀ e, Read.failed e ∈ rest → forgive e = true :=
      fun e he => h e (List.mem_cons_of_mem _ he)
    cases r with
    | data first more =>
      rw [unread_data, List.cons_append, delivered_data, List.prefix_cons_inj,
        List.prefix_append_right_inj]
      exact ih hrest hb
    | failed e =>
      have hfails : Framing.failures (.failed e :: rest) = Framing.failures rest + 1 := by
        simp [Framing.failures, Read.isData]
      cases budget with
      | zero => omega
      | succ budget =>
        rw [List.cons_append, delivered, if_pos (h e List.mem_cons_self)]
        exact ih hrest (by omega)

/-- What one read takes. -/
theorem ofReads_data (hn : 0 < n) (first : β) (more : List β) (rest : List (Read ι β)) :
    ∃ k, 0 < k ∧ k ≤ n ∧ k ≤ (first :: more).length ∧
      ofReads n (.data first more :: rest) =
        .ok ((first :: more).take k) (after k (.data first more :: rest)) ∧
      spent k (.data first more :: rest) = 0 := by
  have hleft : (.data first more :: rest : List (Read ι β)) = leftover (first :: more) rest := rfl
  refine ⟨min n (first :: more).length, ?_, by omega, by omega, ?_, ?_⟩
  · rw [List.length_cons]
    omega
  · rw [ofReads, hleft, after_leftover]
    by_cases hlt : n < (first :: more).length
    · have hmin : min n (first :: more).length = n := by omega
      rw [hmin, if_pos hlt]
    · have hmin : min n (first :: more).length = (first :: more).length := by omega
      rw [hmin, if_neg (Nat.lt_irrefl _), List.take_of_length_le (Nat.le_of_not_lt hlt),
        List.drop_of_length_le (Nat.le_of_not_lt hlt), Nat.sub_self, after_zero, List.take_length]
      rfl
  · rw [hleft, spent_leftover]
    split
    · rfl
    · rename_i hge
      have hmin : min n (first :: more).length - (first :: more).length = 0 := by omega
      rw [hmin, spent_zero]

/-- Reads that nothing is forgiven. -/
def readsSupply : Supply (ofReads : Source (List (Read ι β)) β ι) where
  pending := delivered (fun _ => false) 0
  skip := after
  skip_zero := after_zero
  skip_skip reads k l _ := after_after k l reads
  pending_skip reads k h := by simpa using delivered_after h
  gives reads n hn hne := by
    cases reads with
    | nil => exact (hne rfl).elim
    | cons r rest =>
      cases r with
      | failed e => exact (hne rfl).elim
      | data first more =>
        obtain ⟨k, hpos, hkn, hk, hread, -⟩ := ofReads_data hn first more rest
        rw [delivered_data, ← List.cons_append]
        refine ⟨k, hpos, hkn, ?_, ?_⟩
        · rw [List.length_append]
          omega
        · rw [List.take_append_of_le_length hk]
          exact hread
  stops reads n got s' hn hnil h := by
    cases reads with
    | nil =>
      cases h
      rfl
    | cons r rest =>
      cases r with
      | failed e => cases h
      | data first more => cases hnil

theorem ofReads_conserves : Conserves (ofReads : Source (List (Read ι β)) β ι) (unread []) := by
  intro n reads
  cases reads with
  | nil => exact ⟨Nat.zero_le _, rfl⟩
  | cons r rest =>
    cases r with
    | failed e => exact rfl
    | data first more =>
      refine ⟨List.length_take_le _ _, ?_⟩
      rw [unread_leftover, ← List.append_assoc, List.take_append_drop]
      exact unread_leftover (first :: more) rest

end Source

end Rsurl.Library
