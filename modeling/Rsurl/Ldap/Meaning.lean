import Rsurl.Ldap.Filter
import Rsurl.Split

/-!
# What a filter text says

The string form of filters as a relation: which text denotes which filters. The parser accepts no text
but such, reads it to its end, and comes back from every text.
-/

namespace Rsurl.Ldap

open Library Text
open Library.Checked (except_bind_eq_ok except_map_eq_ok)

variable {raw value text s rest : Bytes} {f : Filter} {attr : String}

/-! ## Values -/

/-- A backslash and two hex digits are one octet, any other octet is itself. -/
inductive Unescapes : Bytes → Bytes → Prop
  | nil : Unescapes [] []
  | plain {b : UInt8} {raw value : Bytes} (hb : b ≠ 0x5c) (h : Unescapes raw value) :
    Unescapes (b :: raw) (b :: value)
  | escaped {a b : UInt8} {raw value : Bytes} (ha : isAsciiHexdigit a = true)
    (hb : isAsciiHexdigit b = true) (h : Unescapes raw value) :
    Unescapes (0x5c :: a :: b :: raw) (UInt8.ofNat (16 * hexValue a + hexValue b) :: value)

theorem hexValue_lt {b : UInt8} (h : isAsciiHexdigit b = true) : hexValue b < 16 := by
  simp only [isAsciiHexdigit, isAsciiDigit, Bool.or_eq_true, Bool.and_eq_true, decide_eq_true_eq,
    UInt8.le_iff_toNat_le] at h
  unfold hexValue isAsciiDigit
  simp only [Bool.and_eq_true, decide_eq_true_eq, UInt8.le_iff_toNat_le, UInt8.lt_iff_toNat_lt]
  simp only [UInt8.reduceToNat] at h ⊢
  split
  · omega
  · split <;> omega

theorem shiftLeft_or {m n : Nat} (hm : m < 16) (hn : n < 16) :
    UInt8.ofNat m <<< 4 ||| UInt8.ofNat n = UInt8.ofNat (16 * m + n) := by
  have hall : ∀ m n : Fin 16,
      UInt8.ofNat m <<< 4 ||| UInt8.ofNat n = UInt8.ofNat (16 * (m : Nat) + n) := by
    set_option maxRecDepth 8000 in decide
  exact hall ⟨m, hm⟩ ⟨n, hn⟩

theorem unescapes_of_unescapeValue (h : unescapeValue raw = .ok value) : Unescapes raw value := by
  fun_induction unescapeValue raw generalizing value with
  | case1 a b rest x y hb ha ih =>
    obtain ⟨value, hv, rfl⟩ := except_map_eq_ok.mp h
    unfold hexVal at ha hb
    split at ha
    case isFalse => cases ha
    rename_i ha'
    split at hb
    case isFalse => cases hb
    rename_i hb'
    cases ha
    cases hb
    rw [shiftLeft_or (hexValue_lt ha') (hexValue_lt hb')]
    exact .escaped ha' hb' (ih hv)
  | case2 => cases h
  | case3 => cases h
  | case4 b rest hlong hshort ih =>
    obtain ⟨value, hv, rfl⟩ := except_map_eq_ok.mp h
    exact .plain hshort (ih hv)
  | case5 =>
    cases h
    exact .nil

/-- A segment of a substring assertion: an empty one says nothing. -/
def Segment (raw : Bytes) (v : Option Bytes) : Prop :=
  if raw = [] then v = none else ∃ value, v = some value ∧ Unescapes raw value

/-! ## Items -/

/-- No octet that ends a description. -/
def Clean (bytes : Bytes) : Prop := ∀ b ∈ bytes, b ≠ 0x3d ∧ isOrdering b = false

/-- A description without colons. -/
def Plain (bytes : Bytes) : Prop := Clean bytes ∧ 0x3a ∉ bytes

/-- What follows the attribute of an extensible match: the `dn` marker and the rule. -/
def marks (toks : List String) : Bytes := toks.flatMap fun t => 0x3a :: asBytes t

def markers (dn : Bool) (rule : Option String) : List String :=
  (if dn then ["dn"] else []) ++ rule.toList

/-- The text between two parentheses, and the assertion that it is. -/
inductive Item : Bytes → Filter → Prop
  | equality {attr : String} {raw value : Bytes} (hattr : Plain (asBytes attr))
    (hstar : 0x2a ∉ raw) (h : Unescapes raw value) :
    Item (asBytes attr ++ 0x3d :: raw) (.equalityMatch attr value)
  | greater {attr : String} {raw value : Bytes} (hattr : Plain (asBytes attr)) (hne : attr ≠ "")
    (h : Unescapes raw value) :
    Item (asBytes attr ++ 0x3e :: 0x3d :: raw) (.greaterOrEqual attr value)
  | less {attr : String} {raw value : Bytes} (hattr : Plain (asBytes attr)) (hne : attr ≠ "")
    (h : Unescapes raw value) :
    Item (asBytes attr ++ 0x3c :: 0x3d :: raw) (.lessOrEqual attr value)
  | approx {attr : String} {raw value : Bytes} (hattr : Plain (asBytes attr)) (hne : attr ≠ "")
    (h : Unescapes raw value) :
    Item (asBytes attr ++ 0x7e :: 0x3d :: raw) (.approxMatch attr value)
  | present {attr : String} (hattr : Plain (asBytes attr)) :
    Item (asBytes attr ++ [0x3d, 0x2a]) (.present attr)
  | substrings {attr : String} {first last : Bytes} {mids : List Bytes}
    {initial final : Option Bytes} {any : List Bytes} (hattr : Plain (asBytes attr))
    (hstar : ∀ seg ∈ first :: (mids ++ [last]), 0x2a ∉ seg)
    (hpresent : ¬(first = [] ∧ mids = [] ∧ last = []))
    (hinitial : Segment first initial)
    (hany : List.Forall₂ Unescapes (mids.filter (· ≠ [])) any) (hfinal : Segment last final) :
    Item (asBytes attr ++ 0x3d :: [0x2a].intercalate (first :: (mids ++ [last])))
      (.substrings attr initial any final)
  | extensible {rule attrType : Option String} {dn : Bool} {toks : List String} {raw value : Bytes}
    (hclean : Clean (asBytes (attrType.getD "") ++ marks toks))
    (hattr : attrType ≠ some "" ∧ 0x3a ∉ asBytes (attrType.getD ""))
    (hrule : rule ≠ some "" ∧ rule ≠ some "dn") (hsome : attrType.isSome ∨ rule.isSome)
    (hcolon : ∀ t ∈ toks, 0x3a ∉ asBytes t) (htoks : toks.Perm (markers dn rule))
    (h : Unescapes raw value) :
    Item (asBytes (attrType.getD "") ++ marks toks ++ 0x3a :: 0x3d :: raw)
      (.extensibleMatch rule attrType value dn)

/-! ## Filters -/

/-- Filters one after another. -/
inductive Denotes : Bytes → List Filter → Prop
  | nil : Denotes [] []
  | item {text more : Bytes} {f : Filter} {fs : List Filter} (h : Item text f)
    (hclose : 0x29 ∉ text) (hhead : ∀ b ∈ text.head?, b ≠ 0x26 ∧ b ≠ 0x7c ∧ b ≠ 0x21)
    (hmore : Denotes more fs) : Denotes (0x28 :: (text ++ 0x29 :: more)) (f :: fs)
  | and {text more : Bytes} {items fs : List Filter} (h : Denotes text items) (hne : items ≠ [])
    (hmore : Denotes more fs) : Denotes (0x28 :: 0x26 :: (text ++ 0x29 :: more)) (.and items :: fs)
  | or {text more : Bytes} {items fs : List Filter} (h : Denotes text items) (hne : items ≠ [])
    (hmore : Denotes more fs) : Denotes (0x28 :: 0x7c :: (text ++ 0x29 :: more)) (.or items :: fs)
  | not {text more : Bytes} {f : Filter} {fs : List Filter} (h : Denotes text [f])
    (hmore : Denotes more fs) : Denotes (0x28 :: 0x21 :: (text ++ 0x29 :: more)) (.not f :: fs)

theorem Denotes.append {text' : Bytes} {fs fs' : List Filter} (h : Denotes text fs)
    (h' : Denotes text' fs') : Denotes (text ++ text') (fs ++ fs') := by
  induction h with
  | nil => exact h'
  | item h hclose hhead _ ih =>
    rw [List.cons_append, List.append_assoc]
    exact .item h hclose hhead ih
  | and h hne _ _ ih =>
    rw [List.cons_append, List.cons_append, List.append_assoc]
    exact .and h hne ih
  | or h hne _ _ ih =>
    rw [List.cons_append, List.cons_append, List.append_assoc]
    exact .or h hne ih
  | not h _ _ ih =>
    rw [List.cons_append, List.cons_append, List.append_assoc]
    exact .not h ih

theorem Denotes.length_pos (h : Denotes text [f]) : 0 < text.length := by
  cases h <;> simp

/-! ## Reading items -/

theorem expect_ok {c : UInt8} (h : expect c s = .ok rest) : s = c :: rest := by
  cases s with
  | nil => cases h
  | cons x s =>
    rw [expect] at h
    split at h
    · rename_i hx
      cases h
      rw [hx]
    · cases h

theorem readValue_ok {v : String} (h : readValue s = .ok (v, rest)) :
    s = asBytes v ++ rest ∧ 0x29 ∉ asBytes v := by
  unfold readValue at h
  extract_lets raw at h
  split at h
  · rename_i v' hv
    cases h
    rw [asBytes_of_fromUtf8 hv]
    refine ⟨?_, fun hmem => ?_⟩
    · exact (List.prefix_iff_eq_append.mp (List.takeWhile_prefix _)).symm
    · simpa using List.mem_takeWhile_imp hmem
  · cases h

theorem addSegments_ok {last : Nat} {pl : String} {mids : List String} {i : Nat} {acc out : Segments}
    (h : addSegments last i (mids ++ [pl]) acc = .ok out) (hi : 0 < i)
    (hlast : i + mids.length = last) (hfinal : acc.final = none) :
    out.initial = acc.initial ∧ (∃ more, out.any = acc.any ++ more ∧
      List.Forall₂ Unescapes ((mids.map asBytes).filter (· ≠ [])) more) ∧
      Segment (asBytes pl) out.final := by
  induction mids generalizing i acc with
  | nil =>
    rw [List.nil_append, addSegments] at h
    split at h
    · rename_i hempty
      cases h
      exact ⟨rfl, ⟨[], by simp, by simp⟩, by rw [Segment, if_pos (asBytes_eq_nil.mpr hempty), hfinal]⟩
    · rename_i hne
      obtain ⟨_, -, h⟩ := except_bind_eq_ok.mp h
      obtain ⟨v, hv, h⟩ := except_bind_eq_ok.mp h
      have heq : i = last := by simpa using hlast
      rw [if_neg (by omega), if_pos heq] at h
      cases h
      refine ⟨rfl, ⟨[], by simp, by simp⟩, ?_⟩
      rw [Segment, if_neg (mt asBytes_eq_nil.mp hne)]
      exact ⟨v, rfl, unescapes_of_unescapeValue hv⟩
  | cons seg mids ih =>
    rw [List.cons_append, addSegments] at h
    rw [List.length_cons] at hlast
    split at h
    · rename_i hempty
      obtain ⟨hinit, ⟨more, hany, hmore⟩, hfin⟩ := ih h (by omega) (by omega) hfinal
      refine ⟨hinit, ⟨more, hany, ?_⟩, hfin⟩
      rwa [List.map_cons, List.filter_cons_of_neg (by simpa using asBytes_eq_nil.mpr hempty)]
    · rename_i hne
      obtain ⟨_, -, h⟩ := except_bind_eq_ok.mp h
      obtain ⟨v, hv, h⟩ := except_bind_eq_ok.mp h
      rw [if_neg (by omega), if_neg (by omega)] at h
      obtain ⟨hinit, ⟨more, hany, hmore⟩, hfin⟩ := ih h (by omega) (by omega) hfinal
      refine ⟨hinit, ⟨v :: more, ?_, ?_⟩, hfin⟩
      · rw [hany, List.append_assoc]
        rfl
      · rw [List.map_cons, List.filter_cons_of_pos (by simpa using mt asBytes_eq_nil.mp hne)]
        exact .cons (unescapes_of_unescapeValue hv) hmore

theorem segments_ok {raw : String} {out : Segments} {p pl : String} {mids : List String}
    (hsplit : split '*' raw = p :: (mids ++ [pl]))
    (h : addSegments (raw.toList.count '*') 0 (split '*' raw) ⟨none, [], none⟩ = .ok out) :
    Segment (asBytes p) out.initial ∧
      List.Forall₂ Unescapes ((mids.map asBytes).filter (· ≠ [])) out.any ∧
      Segment (asBytes pl) out.final := by
  have hlen : (split '*' raw).length = raw.toList.count '*' + 1 := by
    rw [split, List.length_map, length_splitOn]
  rw [hsplit, List.length_cons, List.length_append, List.length_singleton] at hlen
  rw [hsplit, addSegments] at h
  split at h
  · rename_i hempty
    obtain ⟨hinit, ⟨more, hany, hmore⟩, hfin⟩ := addSegments_ok h (by omega) (by omega) rfl
    refine ⟨?_, by rwa [hany], hfin⟩
    rw [Segment, if_pos (asBytes_eq_nil.mpr hempty), hinit]
  · rename_i hne
    obtain ⟨_, -, h⟩ := except_bind_eq_ok.mp h
    obtain ⟨v, hv, h⟩ := except_bind_eq_ok.mp h
    rw [if_pos rfl] at h
    obtain ⟨hinit, ⟨more, hany, hmore⟩, hfin⟩ := addSegments_ok h (by omega) (by omega) rfl
    refine ⟨?_, by rwa [hany], hfin⟩
    rw [Segment, if_neg (mt asBytes_eq_nil.mp hne)]
    exact ⟨v, hinit, unescapes_of_unescapeValue hv⟩

theorem parseEquality_ok (hattr : Plain (asBytes attr)) (h : parseEquality attr s = .ok (f, rest)) :
    ∃ raw, s = raw ++ rest ∧ 0x29 ∉ raw ∧ Item (asBytes attr ++ 0x3d :: raw) f := by
  obtain ⟨⟨raw, s'⟩, hraw, h⟩ := except_bind_eq_ok.mp h
  obtain ⟨hs, hclose⟩ := readValue_ok hraw
  dsimp only at h
  split at h
  · rename_i hstar
    cases h
    exact ⟨_, hs, hclose, by rw [hstar]; exact .present hattr⟩
  rename_i hpresent
  split at h
  · rename_i hstar
    obtain ⟨out, hout, h⟩ := except_bind_eq_ok.mp h
    cases h
    refine ⟨_, hs, hclose, ?_⟩
    have hlen : (split '*' raw).length = raw.toList.count '*' + 1 := by
      rw [split, List.length_map, length_splitOn]
    have hcount : 0 < raw.toList.count '*' := List.count_pos_iff.mpr hstar
    obtain ⟨p, tail, htail⟩ := List.exists_cons_of_length_pos (l := split '*' raw) (by omega)
    have hne : tail ≠ [] := by
      rintro rfl
      rw [htail] at hlen
      simp at hlen
      omega
    obtain ⟨mids, pl, rfl⟩ : ∃ mids pl, tail = mids ++ [pl] :=
      ⟨_, _, (List.dropLast_append_getLast hne).symm⟩
    obtain ⟨hinitial, hany, hfinal⟩ := segments_ok htail hout
    have htext := asBytes_split (c := '*') (by decide) raw
    have hseg : ∀ seg ∈ (split '*' raw).map asBytes, 0x2a ∉ seg := by
      intro seg hseg
      obtain ⟨piece, hpiece, rfl⟩ := List.mem_map.mp hseg
      exact not_mem_asBytes_split (c := '*') (by decide) hpiece
    rw [htail, List.map_cons, List.map_append, List.map_singleton] at htext hseg
    rw [htext]
    refine .substrings hattr hseg ?_ hinitial hany hfinal
    rintro ⟨h1, h2, h3⟩
    rw [h1, h2, h3] at htext
    exact hpresent (asBytes_injective (htext.trans rfl))
  · rename_i hstar
    obtain ⟨_, -, h⟩ := except_bind_eq_ok.mp h
    obtain ⟨value, hvalue, h⟩ := except_bind_eq_ok.mp h
    cases h
    refine ⟨_, hs, hclose, .equality hattr ?_ (unescapes_of_unescapeValue hvalue)⟩
    exact mt (mem_asBytes (c := '*') (by decide)).mp hstar

theorem parseOrdering_ok {op : UInt8} (hop : isOrdering op = true) (hclean : Clean (asBytes attr))
    (h : parseOrdering op attr s = .ok (f, rest)) :
    ∃ raw, s = 0x3d :: (raw ++ rest) ∧ 0x29 ∉ raw ∧ Item (asBytes attr ++ op :: 0x3d :: raw) f := by
  obtain ⟨s', hexpect, h⟩ := except_bind_eq_ok.mp h
  have hs := expect_ok hexpect
  split at h
  · cases h
  rename_i hattr
  rw [not_or] at hattr
  have hplain : Plain (asBytes attr) := ⟨hclean, mt (mem_asBytes (c := ':') (by decide)).mp hattr.2⟩
  obtain ⟨⟨raw, s''⟩, hraw, h⟩ := except_bind_eq_ok.mp h
  obtain ⟨hs', hclose⟩ := readValue_ok hraw
  dsimp only at h
  obtain ⟨_, -, h⟩ := except_bind_eq_ok.mp h
  obtain ⟨value, hvalue, h⟩ := except_bind_eq_ok.mp h
  have hun := unescapes_of_unescapeValue hvalue
  refine ⟨asBytes raw, ?_, hclose, ?_⟩
  · cases h
    rw [hs, hs']
  · injection h with h
    injection h with h h'
    rw [← h]
    have hcases : op = 0x7e ∨ op = 0x3c ∨ op = 0x3e := by simpa [isOrdering, or_assoc] using hop
    rcases hcases with rfl | rfl | rfl
    · exact .approx hplain hattr.1 hun
    · exact .less hplain hattr.1 hun
    · exact .greater hplain hattr.1 hun

theorem addTokens_ok {toks : List String} {acc : Bool × Option String} {dn : Bool}
    {rule : Option String} (h : addTokens toks acc = .ok (dn, rule))
    (hacc : acc.2 ≠ some "" ∧ acc.2 ≠ some "dn") :
    (markers dn rule).Perm (toks ++ markers acc.1 acc.2) ∧ rule ≠ some "" ∧ rule ≠ some "dn" := by
  induction toks generalizing acc with
  | nil =>
    cases h
    exact ⟨.refl _, hacc⟩
  | cons tok toks ih =>
    obtain ⟨dn₀, rule₀⟩ := acc
    rw [addTokens] at h
    split at h
    · rename_i htok
      split at h
      · cases h
      rename_i hdn
      obtain ⟨hperm, hrule⟩ := ih h hacc
      refine ⟨hperm.trans ?_, hrule⟩
      rw [Bool.not_eq_true] at hdn
      rw [htok, hdn]
      exact List.perm_middle
    · rename_i htok
      split at h
      · cases h
      rename_i hempty
      split at h
      · cases h
      rename_i hnone
      obtain ⟨hperm, hrule⟩ := ih h ⟨by simpa using hempty, by simpa using htok⟩
      refine ⟨hperm.trans ?_, hrule⟩
      have hrule₀ : rule₀ = none := by simpa using hnone
      rw [hrule₀]
      simp only [markers, Option.toList_some, Option.toList_none, List.append_nil]
      rw [← List.append_assoc]
      exact List.perm_append_comm

theorem intercalate_marks (a : String) (toks : List String) :
    [0x3a].intercalate ((a :: toks).map asBytes) = asBytes a ++ marks toks := by
  induction toks generalizing a with
  | nil => simp [marks]
  | cons tok toks ih =>
    rw [List.map_cons, List.map_cons, List.intercalate_cons_cons, ← List.map_cons, ih tok, marks,
      marks, List.flatMap_cons]
    simp

theorem extensibleTokens_eq_some {desc : String} {tokens : List String}
    (h : extensibleTokens desc = some tokens) :
    asBytes desc = [0x3a].intercalate (tokens.map asBytes) ++ [0x3a] ∧ tokens ≠ [] ∧
      ∀ t ∈ tokens, 0x3a ∉ asBytes t := by
  unfold extensibleTokens at h
  split at h
  · rename_i hlast
    obtain rfl := Option.some.inj h
    have htoks : desc.toList = desc.toList.dropLast ++ [':'] :=
      (List.dropLast_append_getLast? ':' hlast).symm
    refine ⟨?_, by simp [split], fun t ht => not_mem_asBytes_split (c := ':') (by decide) ht⟩
    have hsplit := asBytes_split (c := ':') (by decide) (String.ofList desc.toList.dropLast)
    rw [← String.ofList_toList (s := desc)]
    conv_lhs => rw [htoks]
    rw [String.ofList_append, asBytes_append, hsplit]
    simp only [String.toList_ofList]
    rfl
  · cases h

theorem parseExtensible_ok {desc : String} (hclean : Clean (asBytes desc))
    (h : parseExtensible desc s = .ok (f, rest)) :
    ∃ raw, s = raw ++ rest ∧ 0x29 ∉ raw ∧ Item (asBytes desc ++ 0x3d :: raw) f := by
  unfold parseExtensible at h
  split at h
  · cases h
  rename_i tokens htokens
  extract_lets attrType at h
  obtain ⟨hdesc, hne, hcolon⟩ := extensibleTokens_eq_some htokens
  obtain ⟨⟨dn, rule⟩, hadd, h⟩ := except_bind_eq_ok.mp h
  dsimp only at h
  split at h
  · cases h
  rename_i hsome
  obtain ⟨⟨raw, s'⟩, hraw, h⟩ := except_bind_eq_ok.mp h
  obtain ⟨hs, hclose⟩ := readValue_ok hraw
  obtain ⟨_, -, h⟩ := except_bind_eq_ok.mp h
  obtain ⟨value, hvalue, h⟩ := except_bind_eq_ok.mp h
  obtain ⟨_, -, h⟩ := except_bind_eq_ok.mp h
  obtain ⟨_, -, h⟩ := except_bind_eq_ok.mp h
  obtain ⟨a, toks, rfl⟩ := List.exists_cons_of_ne_nil hne
  obtain ⟨hperm, hrule⟩ := addTokens_ok hadd ⟨by simp, by simp⟩
  have hattr : attrType.getD "" = a ∧ attrType ≠ some "" := by
    simp only [attrType, List.head?_cons, Option.filter]
    by_cases ha : a = "" <;> simp [ha]
  clear_value attrType
  cases h
  rw [intercalate_marks, ← hattr.1] at hdesc
  refine ⟨_, hs, hclose, ?_⟩
  have htext : asBytes desc ++ 0x3d :: asBytes raw =
      asBytes (attrType.getD "") ++ marks toks ++ 0x3a :: 0x3d :: asBytes raw := by
    rw [hdesc]
    simp
  rw [htext]
  refine .extensible ?_ ⟨hattr.2, ?_⟩ hrule ?_ ?_ ?_ (unescapes_of_unescapeValue hvalue)
  · intro b hb
    exact hclean b (hdesc ▸ List.mem_append_left _ hb)
  · rw [hattr.1]
    exact hcolon a List.mem_cons_self
  · by_contra hnone
    rw [not_or, Option.not_isSome_iff_eq_none, Option.not_isSome_iff_eq_none] at hnone
    simp [hnone] at hsome
  · exact fun t ht => hcolon t (List.mem_cons_of_mem _ ht)
  · simpa [markers] using hperm.symm

theorem parseSimple_ok (h : parseSimple s = .ok (f, rest)) :
    ∃ text, s = text ++ rest ∧ 0x29 ∉ text ∧ text ≠ [] ∧ Item text f := by
  unfold parseSimple at h
  extract_lets bytes left at h
  have hs : s = bytes ++ left := (List.prefix_iff_eq_append.mp (List.takeWhile_prefix _)).symm
  have hbytes : ∀ b ∈ bytes, b ≠ 0x3d ∧ b ≠ 0x29 ∧ isOrdering b = false := by
    intro b hb
    simpa [and_assoc] using List.mem_takeWhile_imp hb
  clear_value bytes left
  split at h
  · cases h
  rename_i desc hdesc
  have hclean : Clean (asBytes desc) := by
    rw [asBytes_of_fromUtf8 hdesc]
    exact fun b hb => ⟨(hbytes b hb).1, (hbytes b hb).2.2⟩
  have hclose : 0x29 ∉ asBytes desc := by
    rw [asBytes_of_fromUtf8 hdesc]
    exact fun hmem => (hbytes _ hmem).2.1 rfl
  rw [← asBytes_of_fromUtf8 hdesc] at hs
  -- An item is its description, its operator and its value.
  have hitem (op : Bytes) {raw : Bytes} (hop : 0x29 ∉ op) (hop' : op ≠ []) (hleft : left = op ++ (raw ++ rest))
      (hraw : 0x29 ∉ raw) (hf : Item (asBytes desc ++ (op ++ raw)) f) :
      ∃ text, s = text ++ rest ∧ 0x29 ∉ text ∧ text ≠ [] ∧ Item text f := by
    refine ⟨_, ?_, ?_, ?_, hf⟩
    · rw [hs, hleft]
      simp
    · simp [hclose, hop, hraw]
    · simp [hop']
  split at h
  · rename_i op hop
    obtain ⟨hhead, hop⟩ := Option.filter_eq_some_iff.mp hop
    obtain ⟨raw, hraw, hclose', hf⟩ := parseOrdering_ok hop hclean h
    obtain ⟨tail, rfl⟩ := List.head?_eq_some_iff.mp hhead
    rw [List.tail_cons] at hraw
    have hne : op ≠ 0x29 := by
      rintro rfl
      simp [isOrdering] at hop
    exact hitem [op, 0x3d] (by simp [Ne.symm hne]) (by simp) (by rw [hraw]; rfl) hclose' hf
  · obtain ⟨rest', hexpect, h⟩ := except_bind_eq_ok.mp h
    have hleft := expect_ok hexpect
    split at h
    · obtain ⟨raw, hraw, hclose', hf⟩ := parseExtensible_ok hclean h
      exact hitem [0x3d] (by simp) (by simp) (by rw [hleft, hraw]; rfl) hclose' hf
    · rename_i hcolon
      have hplain : Plain (asBytes desc) :=
        ⟨hclean, mt (mem_asBytes (c := ':') (by decide)).mp hcolon⟩
      obtain ⟨raw, hraw, hclose', hf⟩ := parseEquality_ok hplain h
      exact hitem [0x3d] (by simp) (by simp) (by rw [hleft, hraw]; rfl) hclose' hf

/-! ## Reading groups -/

mutual

/-- How deep groups are nested. -/
def Filter.depth : Filter → Nat
  | .and items => depthAll items + 1
  | .or items => depthAll items + 1
  | .not inner => inner.depth + 1
  | _ => 0

def depthAll : List Filter → Nat
  | [] => 0
  | f :: fs => max f.depth (depthAll fs)

end

/-- The parser reads filter texts, of filters that are not too deep. -/
def Faithful (left : Nat) (p : Bytes → Checked Error (Filter × Bytes)) : Prop :=
  ∀ s f rest, p s = .ok (f, rest) →
    ∃ text, s = text ++ rest ∧ Denotes text [f] ∧ f.depth < left

variable {left : Nat} {p : Bytes → Checked Error (Filter × Bytes)} {items : List Filter}

theorem depthAll_lt (h : ∀ f ∈ items, f.depth < left) (hne : items ≠ []) : depthAll items < left := by
  induction items with
  | nil => exact (hne rfl).elim
  | cons f items ih =>
    have hf := h f List.mem_cons_self
    rw [depthAll]
    by_cases hitems : items = []
    · simpa [hitems, depthAll] using hf
    · exact max_lt hf (ih (fun g hg => h g (List.mem_cons_of_mem _ hg)) hitems)

theorem parseList_ok (hp : Faithful left p) (h : parseList p s = .ok (items, rest)) :
    ∃ text, s = text ++ rest ∧ Denotes text items ∧ items ≠ [] ∧ ∀ f ∈ items, f.depth < left := by
  have hrun := Checked.loop_rule (motive := fun st res => ∃ text more,
    st.2 = text ++ res.2 ∧ res.1 = st.1 ++ more ∧ Denotes text more ∧ res.1 ≠ [] ∧
      ∀ f ∈ more, f.depth < left) ?_ ?_ h
  · obtain ⟨text, more, hs, hitems, hden, hne, hdepth⟩ := hrun
    have hitems : items = more := hitems
    exact ⟨text, hs, hitems ▸ hden, hne, hitems ▸ hdepth⟩
  · intro st res hdone
    rw [listTurn] at hdone
    split at hdone
    · obtain ⟨⟨f, r⟩, -, hdone⟩ := Checked.bind_eq_ok.mp hdone
      cases hdone
    · split at hdone
      · cases hdone
      · rename_i hne
        cases hdone
        exact ⟨[], [], rfl, by simp, .nil, by simpa using hne, by simp⟩
  · intro st st' res hnext ⟨text, more, hs, hres, hden, hne, hdepth⟩
    rw [listTurn] at hnext
    split at hnext
    · obtain ⟨⟨f, r⟩, hf, hnext⟩ := Checked.bind_eq_ok.mp hnext
      cases hnext
      obtain ⟨text', hs', hden', hdepth'⟩ := hp _ _ _ hf
      refine ⟨text' ++ text, f :: more, ?_, ?_, hden'.append hden, hne, ?_⟩
      · rw [hs', show r = text ++ res.2 from hs, List.append_assoc]
      · rw [hres, List.append_assoc]
        rfl
      · intro g hg
        rcases List.mem_cons.mp hg with rfl | hg
        · exact hdepth'
        · exact hdepth g hg
    · split at hnext <;> cases hnext

/-- The turns of a list read something, whatever the items. -/
theorem parseList_ne_stuck (hp : Faithful left p) (hstuck : ∀ s, p s ≠ .stuck) (s : Bytes) :
    parseList p s ≠ .stuck := by
  refine Checked.loop_ne_stuck (I := fun _ => True) trivial (fun st _ => ?_) fun st st' _ hnext => ?_
  · rw [listTurn]
    split
    · exact Checked.bind_ne_stuck (hstuck _) fun _ _ => by simp
    · split <;> simp
  · rw [listTurn] at hnext
    split at hnext
    · obtain ⟨⟨f, r⟩, hf, hnext⟩ := Checked.bind_eq_ok.mp hnext
      cases hnext
      obtain ⟨text, hs, hden, -⟩ := hp _ _ _ hf
      have hpos := hden.length_pos
      refine ⟨trivial, show r.length < st.2.length from ?_⟩
      rw [hs, List.length_append]
      omega
    · split at hnext <;> cases hnext

/-- What a group or an item is made of, by its first character. -/
theorem parseComp_ok (hp : Faithful left p) (h : parseComp p s = .ok (f, rest))
    (hclose : rest.head? = some 0x29) :
    ∃ text, 0x28 :: s = text ++ rest.tail ∧ Denotes text [f] ∧ f.depth < left + 1 := by
  obtain ⟨rest, rfl⟩ := List.head?_eq_some_iff.mp hclose
  rw [List.tail_cons]
  unfold parseComp at h
  split at h
  · rename_i s
    obtain ⟨⟨items, s'⟩, hitems, h⟩ := Checked.bind_eq_ok.mp h
    cases h
    obtain ⟨text, hs, hden, hne, hdepth⟩ := parseList_ok hp hitems
    refine ⟨_, ?_, .and hden hne .nil, Nat.succ_lt_succ (depthAll_lt hdepth hne)⟩
    simp [hs]
  · rename_i s
    obtain ⟨⟨items, s'⟩, hitems, h⟩ := Checked.bind_eq_ok.mp h
    cases h
    obtain ⟨text, hs, hden, hne, hdepth⟩ := parseList_ok hp hitems
    refine ⟨_, ?_, .or hden hne .nil, Nat.succ_lt_succ (depthAll_lt hdepth hne)⟩
    simp [hs]
  · rename_i s
    obtain ⟨⟨g, s'⟩, hg, h⟩ := Checked.bind_eq_ok.mp h
    cases h
    obtain ⟨text, hs, hden, hdepth⟩ := hp _ _ _ hg
    refine ⟨_, ?_, .not hden .nil, Nat.succ_lt_succ hdepth⟩
    simp [hs]
  · cases h
  · rename_i hand hor hnot hnil
    obtain ⟨text, hs, hclose, hne, hitem⟩ := parseSimple_ok (Checked.ofExcept_eq_ok.mp h)
    have hdepth : f.depth = 0 := by cases hitem <;> rfl
    refine ⟨_, ?_, .item hitem hclose ?_ .nil, by omega⟩
    · simp [hs]
    · intro b hb
      obtain ⟨tail, rfl⟩ := List.head?_eq_some_iff.mp hb
      rw [List.cons_append] at hs
      exact ⟨fun hb => hand _ (hb ▸ hs), fun hb => hor _ (hb ▸ hs), fun hb => hnot _ (hb ▸ hs)⟩

theorem parseComp_ne_stuck (hp : Faithful left p) (hstuck : ∀ s, p s ≠ .stuck) (s : Bytes) :
    parseComp p s ≠ .stuck := by
  unfold parseComp
  split
  · exact Checked.bind_ne_stuck (parseList_ne_stuck hp hstuck _) fun _ _ => by simp
  · exact Checked.bind_ne_stuck (parseList_ne_stuck hp hstuck _) fun _ _ => by simp
  · exact Checked.bind_ne_stuck (hstuck _) fun _ _ => by simp
  · simp
  · exact Checked.ofExcept_ne_stuck _

/-- Every level of nesting reads what it should. -/
theorem faithful_parse (left : Nat) : Faithful left (parse left) := by
  induction left with
  | zero => exact fun s f rest h => by cases h
  | succ left ih =>
    intro s f rest h
    obtain ⟨s₁, hopen, h⟩ := Checked.bind_eq_ok.mp h
    obtain ⟨⟨g, s₂⟩, hcomp, h⟩ := Checked.bind_eq_ok.mp h
    obtain ⟨s₃, hclose, h⟩ := Checked.bind_eq_ok.mp h
    cases h
    rw [expect_ok (Checked.ofExcept_eq_ok.mp hopen)]
    have hs₂ := expect_ok (Checked.ofExcept_eq_ok.mp hclose)
    have hcomp := parseComp_ok ih hcomp (by rw [hs₂]; rfl)
    rwa [hs₂, List.tail_cons] at hcomp

theorem parse_ne_stuck (left : Nat) (s : Bytes) : parse left s ≠ .stuck := by
  induction left generalizing s with
  | zero => simp [parse]
  | succ left ih =>
    refine Checked.bind_ne_stuck (Checked.ofExcept_ne_stuck _) fun s₁ _ => ?_
    refine Checked.bind_ne_stuck (parseComp_ne_stuck (faithful_parse left) ih _) fun ⟨g, s₂⟩ _ => ?_
    exact Checked.bind_ne_stuck (Checked.ofExcept_ne_stuck _) fun _ _ => by simp

theorem parseFilter_ne_stuck (s : String) : parseFilter s ≠ .stuck := by
  refine Checked.bind_ne_stuck (parse_ne_stuck _ _) fun ⟨f, rest⟩ _ => ?_
  dsimp only
  split <;> simp

theorem parseFilter_ok {s : String} (h : parseFilter s = .ok f) :
    Denotes (asBytes s) [f] ∧ f.depth ≤ maxFilterDepth := by
  obtain ⟨⟨g, rest⟩, hparse, h⟩ := Checked.bind_eq_ok.mp h
  dsimp only at h
  split at h
  · cases h
  rename_i hrest
  cases h
  obtain ⟨text, hs, hden, hdepth⟩ := faithful_parse _ _ _ _ hparse
  rw [not_not.mp hrest, List.append_nil] at hs
  exact ⟨hs ▸ hden, Nat.le_of_lt_succ hdepth⟩

end Rsurl.Ldap
