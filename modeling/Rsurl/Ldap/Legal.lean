import Rsurl.Ldap.Exact
import Rsurl.Ldap.Meaning
import Rsurl.Library.Delimited

/-!
# Legal filters

Which filters the protocol allows: an attribute has a name, a group is not empty, and a substring
assertion has a segment. The parser demands this of every form but two, and so a filter it makes is
legal exactly if the text has no item of those two.
-/

namespace Rsurl.Ldap

open Library Text

variable {raw text more : Bytes} {f : Filter} {fs : List Filter} {attr : String}

mutual

def Filter.Legal : Filter → Prop
  | .and items => items ≠ [] ∧ AllLegal items
  | .or items => items ≠ [] ∧ AllLegal items
  | .not inner => inner.Legal
  | .equalityMatch attr _ => attr ≠ ""
  | .greaterOrEqual attr _ => attr ≠ ""
  | .lessOrEqual attr _ => attr ≠ ""
  | .approxMatch attr _ => attr ≠ ""
  | .substrings attr initial any final =>
    attr ≠ "" ∧ (initial.isSome ∨ any ≠ [] ∨ final.isSome)
  | .present attr => attr ≠ ""
  | .extensibleMatch rule attrType _ _ =>
    (rule.isSome ∨ attrType.isSome) ∧ rule ≠ some "" ∧ attrType ≠ some ""

def AllLegal : List Filter → Prop
  | [] => True
  | f :: fs => f.Legal ∧ AllLegal fs

end

/-! ## The items of a text -/

/-- What stands between parentheses that hold no others. -/
def items : Bytes → List Bytes
  | 0x28 :: 0x26 :: s => items s
  | 0x28 :: 0x7c :: s => items s
  | 0x28 :: 0x21 :: s => items s
  | 0x28 :: s => s.takeWhile (· ≠ 0x29) :: items (s.dropWhile (· ≠ 0x29))
  | _ :: s => items s
  | [] => []
termination_by s => s.length
decreasing_by
  all_goals simp only [List.length_cons]
  all_goals try omega
  have := List.length_dropWhile_le (fun x : UInt8 => decide (x ≠ 0x29)) s
  omega

/-- An item without an attribute. -/
def Unnamed (item : Bytes) : Prop := item.head? = some 0x3d

/-- An item whose value is nothing but asterisks, two or more. -/
def Starry (item : Bytes) : Prop :=
  ∃ desc n, Plain desc ∧ item = desc ++ 0x3d :: List.replicate (n + 2) 0x2a

def Proper (item : Bytes) : Prop := ¬Unnamed item ∧ ¬Starry item

theorem items_group {s : Bytes} {b : UInt8} (hb : b = 0x26 ∨ b = 0x7c ∨ b = 0x21) :
    items (0x28 :: b :: s) = items s := by
  rcases hb with rfl | rfl | rfl <;> rw [items]

theorem items_skip {s : Bytes} {b : UInt8} (hb : b ≠ 0x28) : items (b :: s) = items s := by
  rw [items]
  all_goals intros
  all_goals simp_all

theorem items_item (hclose : 0x29 ∉ text)
    (hhead : ∀ b ∈ text.head?, b ≠ 0x26 ∧ b ≠ 0x7c ∧ b ≠ 0x21) (rest : Bytes) :
    items (0x28 :: (text ++ 0x29 :: rest)) = text :: items rest := by
  have hall : ∀ b ∈ text, decide (b ≠ 0x29) = true := fun b hb =>
    decide_eq_true fun heq => hclose (heq ▸ hb)
  have hne : ∀ b s, text ++ 0x29 :: rest = b :: s → b ≠ 0x26 ∧ b ≠ 0x7c ∧ b ≠ 0x21 := by
    intro b s heq
    cases text with
    | nil =>
      cases heq
      decide
    | cons c text =>
      cases heq
      exact hhead b rfl
  rw [items]
  · rw [List.takeWhile_append_of_pos hall, List.dropWhile_append_of_pos hall,
      List.takeWhile_cons_of_neg (by decide), List.dropWhile_cons_of_neg (by decide),
      List.append_nil, items_skip (by decide)]
  · exact fun s heq => (hne _ s heq).1 rfl
  · exact fun s heq => (hne _ s heq).2.1 rfl
  · exact fun s heq => (hne _ s heq).2.2 rfl

/-! ## Legal items -/

theorem Plain.not_mem {desc : Bytes} (h : Plain desc) : 0x3d ∉ desc := fun hmem => (h.1 _ hmem).1 rfl

theorem unnamed_iff (hattr : Plain (asBytes attr)) :
    Unnamed (asBytes attr ++ 0x3d :: raw) ↔ attr = "" := by
  unfold Unnamed
  cases hbytes : asBytes attr with
  | nil => simpa using asBytes_eq_nil.mp hbytes
  | cons b bytes =>
    have hb : b ≠ 0x3d := (hattr.1 b (hbytes ▸ List.mem_cons_self)).1
    have hne : attr ≠ "" := fun h => by
      rw [asBytes_eq_nil.mpr h] at hbytes
      cases hbytes
    simpa [hne] using hb

theorem starry_iff (hattr : Plain (asBytes attr)) :
    Starry (asBytes attr ++ 0x3d :: raw) ↔ ∃ n, raw = List.replicate (n + 2) 0x2a := by
  constructor
  · rintro ⟨desc, n, hdesc, heq⟩
    exact ⟨n, (Delimited.append_inj hattr.not_mem hdesc.not_mem heq).2⟩
  · rintro ⟨n, rfl⟩
    exact ⟨_, n, hattr, rfl⟩

/-- Where the description is not plain, the item is none of the two. -/
theorem proper_of_not_plain {desc : Bytes} (hequals : 0x3d ∉ desc) (hne : desc ≠ [])
    (hplain : ¬Plain desc) (raw : Bytes) : Proper (desc ++ 0x3d :: raw) := by
  obtain ⟨b, rest, rfl⟩ := List.exists_cons_of_ne_nil hne
  refine ⟨fun hun => ?_, fun ⟨desc', n, hdesc', heq⟩ => ?_⟩
  · rw [Unnamed, List.cons_append, List.head?_cons, Option.some.injEq] at hun
    exact hequals (hun ▸ List.mem_cons_self)
  · exact hplain ((Delimited.append_inj hequals hdesc'.not_mem heq).1 ▸ hdesc')

theorem proper_ordering {op : UInt8} (hop : isOrdering op = true) (hattr : Plain (asBytes attr))
    (raw : Bytes) : Proper (asBytes attr ++ op :: 0x3d :: raw) := by
  have hne : op ≠ 0x3d := by
    rintro rfl
    simp [isOrdering] at hop
  have hproper := @proper_of_not_plain (asBytes attr ++ [op])
    (by simp [hattr.not_mem, Ne.symm hne]) (by simp) (fun h => ?_) raw
  · simpa using hproper
  · have := (h.1 op (by simp)).2
    rw [hop] at this
    cases this

/-- The segments of a value of asterisks are empty. -/
theorem intercalate_eq_replicate_iff {segs : List Bytes} (hne : segs ≠ [])
    (hstar : ∀ seg ∈ segs, 0x2a ∉ seg) :
    (∃ n, [0x2a].intercalate segs = List.replicate n 0x2a) ↔ ∀ seg ∈ segs, seg = [] := by
  constructor
  · rintro ⟨n, heq⟩ seg hseg
    have hsplit := List.splitOn_intercalate (0x2a : UInt8) hstar hne
    rw [heq] at hsplit
    have hmem : ∀ m, ∀ piece ∈ (List.replicate m (0x2a : UInt8)).splitOn 0x2a, piece = [] := by
      intro m
      induction m with
      | zero => simp
      | succ m ih =>
        rw [List.replicate_succ, List.splitOn_cons_eq_if_modifyHead, if_pos (by simp)]
        intro piece hpiece
        rcases List.mem_cons.mp hpiece with rfl | hpiece
        · rfl
        · exact ih piece hpiece
    exact hmem n seg (hsplit ▸ hseg)
  · intro hall
    obtain ⟨n, rfl⟩ : ∃ n, segs = List.replicate n [] :=
      ⟨_, List.eq_replicate_of_mem hall⟩
    refine ⟨n - 1, ?_⟩
    induction n with
    | zero => rfl
    | succ n ih =>
      cases n with
      | zero => rfl
      | succ n =>
        rw [List.replicate_succ, List.replicate_succ, List.intercalate_cons_cons,
          ← List.replicate_succ, ih (by simp) (by simp) (by simp)]
        rfl

/-- More than one asterisk, since one alone is the presence filter. -/
theorem stars_iff {first last : Bytes} {mids : List Bytes}
    (hstar : ∀ seg ∈ first :: (mids ++ [last]), 0x2a ∉ seg)
    (hpresent : ¬(first = [] ∧ mids = [] ∧ last = [])) :
    (∃ n, [0x2a].intercalate (first :: (mids ++ [last])) = List.replicate (n + 2) 0x2a) ↔
      ∀ seg ∈ first :: (mids ++ [last]), seg = [] := by
  rw [← intercalate_eq_replicate_iff (List.cons_ne_nil _ _) hstar]
  constructor
  · rintro ⟨n, hn⟩
    exact ⟨n + 2, hn⟩
  · rintro ⟨n, hn⟩
    have hall := (intercalate_eq_replicate_iff (List.cons_ne_nil _ _) hstar).mp ⟨n, hn⟩
    have hmids : 0 < mids.length := List.length_pos_of_ne_nil fun hmids =>
      hpresent ⟨hall first (by simp), hmids, hall last (by simp)⟩
    have hlen := congrArg List.length (List.splitOn_intercalate _ hstar (List.cons_ne_nil _ _))
    rw [hn, length_splitOn, List.count_replicate_self, List.length_cons, List.length_append,
      List.length_singleton] at hlen
    exact ⟨n - 2, by rw [hn, Nat.sub_add_cancel (by omega)]⟩

theorem segment_isSome {v : Option Bytes} (h : Segment raw v) : v.isSome ↔ raw ≠ [] := by
  unfold Segment at h
  split at h
  · rename_i hraw
    simp [h, hraw]
  · rename_i hraw
    obtain ⟨value, rfl, -⟩ := h
    simp [hraw]

theorem forall₂_ne_nil {mids any : List Bytes}
    (h : List.Forall₂ Unescapes (mids.filter (· ≠ [])) any) :
    any ≠ [] ↔ ¬∀ seg ∈ mids, seg = [] := by
  have hlen := h.length_eq
  rw [ne_eq, ← List.length_eq_zero_iff, ← hlen, List.length_eq_zero_iff, List.filter_eq_nil_iff]
  simp

theorem Item.legal_iff (h : Item text f) : f.Legal ↔ Proper text := by
  cases h with
  | @equality attr raw value hattr hstar h =>
    have hnot : ¬∃ n, raw = List.replicate (n + 2) 0x2a := by
      rintro ⟨n, rfl⟩
      simp at hstar
    rw [Proper, unnamed_iff hattr, starry_iff hattr, Filter.Legal]
    exact (and_iff_left hnot).symm
  | greater hattr hne h => exact iff_of_true hne (proper_ordering (by decide) hattr _)
  | less hattr hne h => exact iff_of_true hne (proper_ordering (by decide) hattr _)
  | approx hattr hne h => exact iff_of_true hne (proper_ordering (by decide) hattr _)
  | present hattr =>
    have hnot : ¬∃ n, [(0x2a : UInt8)] = List.replicate (n + 2) 0x2a := by
      rintro ⟨n, hn⟩
      simpa using congrArg List.length hn
    rw [Proper, unnamed_iff hattr, starry_iff hattr, Filter.Legal]
    exact (and_iff_left hnot).symm
  | @substrings attr first last mids initial final any hattr hstar hpresent hinitial hany hfinal =>
    rw [Proper, unnamed_iff hattr, starry_iff hattr, stars_iff hstar hpresent, Filter.Legal,
      segment_isSome hinitial, forall₂_ne_nil hany, segment_isSome hfinal]
    simp only [List.mem_cons, List.mem_append, List.not_mem_nil, or_false]
    refine and_congr_right fun _ => ?_
    constructor
    · rintro (h | h | h) hall
      · exact h (hall first (.inl rfl))
      · exact h fun seg hseg => hall seg (.inr (.inl hseg))
      · exact h (hall last (.inr (.inr rfl)))
    · intro h
      by_contra hnone
      rw [not_or, not_or, not_not, not_not, not_not] at hnone
      obtain ⟨hf, hm, hl⟩ := hnone
      refine h fun seg hseg => ?_
      rcases hseg with rfl | hseg | rfl
      · exact hf
      · exact hm seg hseg
      · exact hl
  | @extensible rule attrType dn toks raw value hclean hattr hrule hsome hcolon htoks h =>
    have hequals : 0x3d ∉ asBytes (attrType.getD "") ++ marks toks ++ [0x3a] := by
      rw [List.mem_append, not_or]
      exact ⟨fun hmem => (hclean _ hmem).1 rfl, by decide⟩
    have hproper := proper_of_not_plain hequals (by simp) (fun h => h.2 (by simp)) raw
    rw [List.append_assoc] at hproper
    exact iff_of_true ⟨hsome.symm, hrule.1, hattr.1⟩ hproper

/-! ## Legal texts -/

theorem Denotes.items (h : Denotes text fs) :
    (∀ rest, items (text ++ rest) = items text ++ items rest) ∧
      (AllLegal fs ↔ ∀ item ∈ items text, Proper item) := by
  induction h with
  | nil => simp [Ldap.items, AllLegal]
  | @item text more f fs h hclose hhead _ ih =>
    refine ⟨fun rest => ?_, ?_⟩
    · rw [List.cons_append, List.append_assoc, List.cons_append, items_item hclose hhead,
        items_item hclose hhead, ih.1, List.cons_append]
    · rw [items_item hclose hhead, AllLegal, h.legal_iff, ih.2, List.forall_mem_cons]
  | @and text more group fs h hne _ ihg ih =>
    refine ⟨fun rest => ?_, ?_⟩
    · simp only [List.cons_append, List.append_assoc]
      rw [items_group (.inl rfl), items_group (.inl rfl), ihg.1, ihg.1, items_skip (by decide),
        items_skip (by decide), ih.1, List.append_assoc]
    · rw [items_group (.inl rfl), ihg.1, items_skip (by decide), AllLegal, Filter.Legal, ihg.2, ih.2,
        List.forall_mem_append, and_iff_right hne]
  | @or text more group fs h hne _ ihg ih =>
    refine ⟨fun rest => ?_, ?_⟩
    · simp only [List.cons_append, List.append_assoc]
      rw [items_group (.inr (.inl rfl)), items_group (.inr (.inl rfl)), ihg.1, ihg.1,
        items_skip (by decide), items_skip (by decide), ih.1, List.append_assoc]
    · rw [items_group (.inr (.inl rfl)), ihg.1, items_skip (by decide), AllLegal, Filter.Legal,
        ihg.2, ih.2, List.forall_mem_append, and_iff_right hne]
  | @not text more f fs h _ ihg ih =>
    refine ⟨fun rest => ?_, ?_⟩
    · simp only [List.cons_append, List.append_assoc]
      rw [items_group (.inr (.inr rfl)), items_group (.inr (.inr rfl)), ihg.1, ihg.1,
        items_skip (by decide), items_skip (by decide), ih.1, List.append_assoc]
    · have hg := ihg.2
      rw [AllLegal, AllLegal, and_true] at hg
      rw [items_group (.inr (.inr rfl)), ihg.1, items_skip (by decide), AllLegal, Filter.Legal, hg,
        ih.2, List.forall_mem_append]

theorem Denotes.legal_iff (h : Denotes text [f]) :
    f.Legal ↔ ∀ item ∈ Ldap.items text, Proper item := by
  rw [← h.items.2, AllLegal, AllLegal, and_true]

end Rsurl.Ldap
