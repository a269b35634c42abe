import Rsurl.Ascii
import Rsurl.Text

/-!
# Split text

The pieces of a split text: none contains the separator, there is one more of them than separators,
and joined they are the text again, in characters as in bytes.
-/

namespace Rsurl.Text

variable {α : Type*} [BEq α] [LawfulBEq α] {a : α} {l : List α}

theorem not_mem_of_mem_splitOn {piece : List α} (h : piece ∈ l.splitOn a) : a ∉ piece := by
  induction l generalizing piece with
  | nil =>
    rw [List.splitOn_nil, List.mem_singleton] at h
    simp [h]
  | cons x l ih =>
    rw [List.splitOn_cons_eq_if_modifyHead] at h
    split at h
    · rcases List.mem_cons.mp h with rfl | h
      · exact List.not_mem_nil
      · exact ih h
    · rename_i hx
      obtain ⟨first, more, heq⟩ := List.exists_cons_of_ne_nil (List.splitOn_ne_nil a l)
      rw [heq, List.modifyHead_cons] at h
      rw [heq] at ih
      rcases List.mem_cons.mp h with rfl | h
      · rw [List.mem_cons, not_or]
        exact ⟨fun hax => hx (hax ▸ BEq.refl _), ih List.mem_cons_self⟩
      · exact ih (List.mem_cons_of_mem _ h)

omit [LawfulBEq α] in
theorem length_splitOn (a : α) (l : List α) : (l.splitOn a).length = l.count a + 1 := by
  induction l with
  | nil => simp
  | cons x l ih =>
    rw [List.splitOn_cons_eq_if_modifyHead, List.count_cons]
    split
    · rw [List.length_cons, ih]
    · rw [List.length_modifyHead, ih]

/-- Joining characters is joining bytes. -/
theorem asBytes_intercalate {c : Char} (hc : c.toNat < 0x80) (pieces : List (List Char)) :
    asBytes (String.ofList ([c].intercalate pieces)) =
      [UInt8.ofNat c.toNat].intercalate (pieces.map fun p => asBytes (String.ofList p)) := by
  induction pieces with
  | nil => rfl
  | cons first rest ih =>
    cases rest with
    | nil => simp
    | cons second rest =>
      rw [List.map_cons, List.map_cons, List.intercalate_cons_cons, List.intercalate_cons_cons,
        String.ofList_append, String.ofList_append, asBytes_append, asBytes_append, ih,
        asBytes_cons hc, List.map_cons]
      rfl

theorem asBytes_split {c : Char} (hc : c.toNat < 0x80) (s : String) :
    asBytes s = [UInt8.ofNat c.toNat].intercalate ((split c s).map asBytes) := by
  have h := asBytes_intercalate hc (s.toList.splitOn c)
  rw [List.intercalate_splitOn, String.ofList_toList] at h
  rw [h, split, List.map_map]
  rfl

theorem not_mem_asBytes_split {c : Char} (hc : c.toNat < 0x80) {s piece : String}
    (h : piece ∈ split c s) : UInt8.ofNat c.toNat ∉ asBytes piece := by
  obtain ⟨p, hp, rfl⟩ := List.mem_map.mp h
  rw [mem_asBytes hc, String.toList_ofList]
  exact not_mem_of_mem_splitOn hp

theorem asBytes_eq_nil {s : String} : asBytes s = [] ↔ s = "" :=
  ⟨fun h => asBytes_injective (h.trans rfl), fun h => h ▸ rfl⟩

/-! ## At the first separator -/

variable {sep : Char} {s first rest : String}

theorem takeWhile_ne_of_not_mem {front : List Char} (h : sep ∉ front) (rest : List Char) :
    (front ++ sep :: rest).takeWhile (· ≠ sep) = front := by
  have hall : ∀ c ∈ front, decide (c ≠ sep) = true := by
    intro c hc
    exact decide_eq_true fun heq => h (heq ▸ hc)
  rw [List.takeWhile_append_of_pos hall, List.takeWhile_cons_of_neg (by simp), List.append_nil]

theorem splitOnce_eq_none : splitOnce sep s = none ↔ sep ∉ s.toList := by
  unfold splitOnce
  dsimp only
  constructor
  · intro h hin
    split at h
    · rename_i hnil
      have hle := List.drop_eq_nil_iff.mp hnil
      have hself := (List.takeWhile_prefix (l := s.toList) (· ≠ sep)).eq_of_length_le hle
      have hne := List.takeWhile_eq_self_iff.mp hself sep hin
      exact of_decide_eq_true hne rfl
    · cases h
  · intro h
    have hself : s.toList.takeWhile (· ≠ sep) = s.toList :=
      List.takeWhile_eq_self_iff.mpr fun c hc => decide_eq_true fun heq => h (heq ▸ hc)
    rw [hself, List.drop_length]

theorem splitOnce_of_toList (h : s.toList = first.toList ++ sep :: rest.toList)
    (hsep : sep ∉ first.toList) : splitOnce sep s = some (first, rest) := by
  unfold splitOnce
  rw [h, takeWhile_ne_of_not_mem hsep]
  dsimp only
  rw [List.drop_left]
  dsimp only
  rw [String.ofList_toList, String.ofList_toList]

theorem splitOnce_eq_some : splitOnce sep s = some (first, rest) ↔
    s.toList = first.toList ++ sep :: rest.toList ∧ sep ∉ first.toList := by
  constructor
  · intro h
    have hin : sep ∈ s.toList := by
      by_contra hnot
      rw [splitOnce_eq_none.mpr hnot] at h
      cases h
    obtain ⟨front, tail, heq, hfront⟩ := List.eq_append_cons_of_mem hin
    rw [← String.toList_ofList (l := front), ← String.toList_ofList (l := tail)] at heq
    rw [← String.toList_ofList (l := front)] at hfront
    have hcut := splitOnce_of_toList heq hfront
    rw [h] at hcut
    cases hcut
    exact ⟨heq, hfront⟩
  · rintro ⟨heq, hsep⟩
    exact splitOnce_of_toList heq hsep

end Rsurl.Text

/-!
## Lines and words

The operations of Rust's `str` that the line protocols take replies apart with.
-/

namespace Rsurl.Text

/-- A line without the carriage return at its end. -/
def stripCarriage (line : List Char) : List Char :=
  if line.getLast? = some '\r' then line.dropLast else line

/-- `str::lines`: what follows the last line feed is a line if there is something. -/
def lines (s : String) : List String :=
  let parts := s.toList.splitOn '\n'
  (parts.dropLast.map fun line => String.ofList (stripCarriage line)) ++
    match parts.getLast? with
    | some (c :: rest) => [String.ofList (c :: rest)]
    | _ => []

def splitWhitespace (s : String) : List String :=
  ((s.toList.splitOnP isWhitespace).filter (!·.isEmpty)).map String.ofList

def trimEnd (s : String) : String := trimEndMatches isWhitespace s

def trimStart (s : String) : String := String.ofList (s.toList.dropWhile isWhitespace)

/-- What follows a prefix. -/
def afterPrefix (start s : String) : Option String :=
  if startsWith start s then some (String.ofList (s.toList.drop start.toList.length)) else none

/-- Split at the last occurrence of `sep`. -/
def rsplitOnceAt (sep s : List Char) : Option (List Char × List Char) :=
  (splitOnceAt sep.reverse s.reverse).map fun (after, before) => (before.reverse, after.reverse)

end Rsurl.Text
