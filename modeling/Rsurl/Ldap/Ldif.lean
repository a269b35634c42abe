import Rsurl.Net.Connect

/-!
# LDIF

The entries that a search finds are written as text, one block of lines for each. Names and values
are the server's: a value that could pass for something else is written in base64, and an attribute
whose name could is left out.
-/

namespace Rsurl.Ldap

open Library Text
open Library.Delimited (upTo upTo_append fields fields_flatMap)

/-! ## Writing -/

def ldifIsSafe : Bytes → Bool
  | [] => true
  | first :: rest =>
    if first = 0x20 ∨ first = 0x3a ∨ first = 0x3c then false
    else !(first :: rest).any fun b => b == 0 || b == 0x0d || b == 0x0a || 0x80 ≤ b

def isNameByte (b : UInt8) : Bool :=
  (0x41 ≤ b && b ≤ 0x5a) || (0x61 ≤ b && b ≤ 0x7a) || (0x30 ≤ b && b ≤ 0x39) ||
    b == 0x2d || b == 0x3b || b == 0x2e

def ldifNameIsSafe (name : String) : Bool :=
  if name = "" then false else (asBytes name).all isNameByte

def writeLdifLine (out : Bytes) (name : String) (value : Bytes) : Bytes :=
  let out := out ++ asBytes name
  let out :=
    if ldifIsSafe value then out ++ asBytes ": " ++ value
    else out ++ asBytes ":: " ++ asBytes (Http2.base64Encode value)
  out ++ [0x0a]

/-- The attributes of an entry, each with its values. -/
abbrev Attrs := List (String × List Bytes)

def writeLdifEntry (out : Bytes) (dn : String) (attrs : Attrs) : Bytes :=
  let out := writeLdifLine out "dn" (asBytes dn)
  let out := attrs.foldl (fun out (name, vals) =>
    if ldifNameIsSafe name then vals.foldl (fun out v => writeLdifLine out name v) out else out) out
  out ++ [0x0a]

/-! ## Reading -/

/-- `name: text` or `name:: base64`. -/
def readLdifLine (line : Bytes) : Option (Bytes × Bytes) :=
  match upTo 0x3a line with
  | some (name, 0x20 :: text) => some (name, text)
  | some (name, 0x3a :: 0x20 :: token) => (Net.base64Decode token).map (name, ·)
  | _ => none

/-- The blocks between blank lines, each read line by line. -/
def readLdif (text : Bytes) : Option (List (List (Bytes × Bytes))) := do
  let lines ← fields 0x0a text
  let blocks ← fields [] lines
  blocks.mapM fun block => block.mapM readLdifLine

/-! ## Lines -/

/-- A line without its end. -/
def ldifLine (name : String) (value : Bytes) : Bytes :=
  asBytes name ++ if ldifIsSafe value then asBytes ": " ++ value
    else asBytes ":: " ++ asBytes (Http2.base64Encode value)

theorem writeLdifLine_eq (out : Bytes) (name : String) (value : Bytes) :
    writeLdifLine out name value = out ++ (ldifLine name value ++ [0x0a]) := by
  unfold writeLdifLine ldifLine
  split <;> simp

/-- A name that ends where its line says. -/
def Framed (name : String) : Prop := name ≠ "" ∧ ∀ b ∈ asBytes name, b ≠ 0x3a ∧ b ≠ 0x0a

theorem framed_of_safe {name : String} (h : ldifNameIsSafe name = true) : Framed name := by
  unfold ldifNameIsSafe at h
  split at h
  · cases h
  rename_i hne
  refine ⟨hne, fun b hb => ?_⟩
  have hbyte := List.all_eq_true.mp h b hb
  constructor <;> (rintro rfl; simp [isNameByte] at hbyte)

theorem not_mem_base64 (value : Bytes) : 0x0a ∉ asBytes (Http2.base64Encode value) := by
  rw [Net.asBytes_base64Encode, Net.encoded]
  intro hmem
  obtain ⟨c, hc, heq⟩ := List.mem_map.mp hmem
  have hvisible := (Net.base64Chars_ascii _ Net.lt_of_mem_toNat c hc).2
  rw [heq] at hvisible
  revert hvisible
  decide

theorem safe_value {value : Bytes} (h : ldifIsSafe value = true) :
    0x0a ∉ value ∧ value.head? ≠ some 0x3a := by
  cases value with
  | nil => simp
  | cons first rest =>
    rw [ldifIsSafe] at h
    split at h
    · cases h
    rename_i hfirst
    rw [Bool.not_eq_true', List.any_eq_false] at h
    refine ⟨fun hmem => ?_, ?_⟩
    · simpa using h _ hmem
    · rintro heq
      cases heq
      simp at hfirst

variable {name : String} {value : Bytes}

theorem not_mem_ldifLine (h : Framed name) : 0x0a ∉ ldifLine name value := by
  have hcolon : asBytes ": " = [0x3a, 0x20] := by decide
  have hcolons : asBytes ":: " = [0x3a, 0x3a, 0x20] := by decide
  rw [ldifLine, List.mem_append, not_or]
  refine ⟨fun hmem => (h.2 _ hmem).2 rfl, ?_⟩
  split
  · rename_i hsafe
    simpa [hcolon] using (safe_value hsafe).1
  · simpa [hcolons] using not_mem_base64 value

theorem ldifLine_ne_nil (h : Framed name) : ldifLine name value ≠ [] := by
  intro hnil
  exact h.1 (asBytes_injective (List.append_eq_nil_iff.mp hnil).1)

theorem readLdifLine_ldifLine (h : Framed name) :
    readLdifLine (ldifLine name value) = some (asBytes name, value) := by
  have hname : 0x3a ∉ asBytes name := fun hmem => (h.2 _ hmem).1 rfl
  rw [readLdifLine, ldifLine]
  by_cases hsafe : ldifIsSafe value = true
  · have hcolon : asBytes ": " = [0x3a, 0x20] := by decide
    rw [if_pos hsafe, hcolon, List.cons_append, upTo_append hname]
    rfl
  · have hcolons : asBytes ":: " = [0x3a, 0x3a, 0x20] := by decide
    rw [if_neg hsafe, hcolons, List.cons_append, upTo_append hname]
    have hdecode : Net.base64Decode (asBytes (Http2.base64Encode value)) = some value := by
      rw [Net.asBytes_base64Encode, Net.base64Decode_encoded _ Net.lt_of_mem_toNat, List.map_map]
      simp [Function.comp_def]
    exact congrArg (Option.map (asBytes name, ·)) hdecode

/-! ## Entries -/

/-- The lines of an entry: its name, and the values of the attributes that are written. -/
def pairs (dn : String) (attrs : Attrs) : List (String × Bytes) :=
  ("dn", asBytes dn) ::
    (attrs.filter fun a => ldifNameIsSafe a.1).flatMap fun (name, vals) => vals.map (name, ·)

def block (dn : String) (attrs : Attrs) : List Bytes :=
  (pairs dn attrs).map fun (name, value) => ldifLine name value

theorem foldl_writeLdifLine (out : Bytes) (name : String) (vals : List Bytes) :
    vals.foldl (fun out v => writeLdifLine out name v) out =
      out ++ (vals.map (ldifLine name)).flatMap (· ++ [0x0a]) := by
  induction vals generalizing out with
  | nil => simp
  | cons v vals ih =>
    rw [List.foldl_cons, ih, writeLdifLine_eq, List.map_cons, List.flatMap_cons, List.append_assoc]

theorem writeLdifEntry_eq (out : Bytes) (dn : String) (attrs : Attrs) :
    writeLdifEntry out dn attrs = out ++ (block dn attrs ++ [[]]).flatMap (· ++ [0x0a]) := by
  have hattrs : ∀ out, attrs.foldl (fun out (name, vals) =>
      if ldifNameIsSafe name then vals.foldl (fun out v => writeLdifLine out name v) out
      else out) out =
      out ++ (((attrs.filter fun a => ldifNameIsSafe a.1).flatMap fun (name, vals) =>
        vals.map (name, ·)).map fun (name, value) => ldifLine name value).flatMap
          (· ++ [0x0a]) := by
    induction attrs with
    | nil => simp
    | cons a attrs ih =>
      obtain ⟨name, vals⟩ := a
      intro out
      rw [List.foldl_cons, ih]
      dsimp only
      split
      · rename_i hsafe
        have hfilter : ((name, vals) :: attrs).filter (fun a => ldifNameIsSafe a.1) =
            (name, vals) :: attrs.filter fun a => ldifNameIsSafe a.1 :=
          List.filter_cons_of_pos hsafe
        rw [hfilter, List.flatMap_cons, foldl_writeLdifLine, List.map_append, List.flatMap_append,
          List.map_map, List.append_assoc]
        rfl
      · rename_i hunsafe
        have hfilter : ((name, vals) :: attrs).filter (fun a => ldifNameIsSafe a.1) =
            attrs.filter fun a => ldifNameIsSafe a.1 := List.filter_cons_of_neg hunsafe
        rw [hfilter]
  unfold writeLdifEntry block pairs
  dsimp only
  rw [hattrs, writeLdifLine_eq, List.map_cons, List.flatMap_append, List.flatMap_cons]
  simp

theorem framed_of_mem_pairs {dn : String} {attrs : Attrs} {p : String × Bytes}
    (h : p ∈ pairs dn attrs) : Framed p.1 := by
  rcases List.mem_cons.mp h with rfl | h
  · have hdn : asBytes "dn" = [0x64, 0x6e] := by decide
    refine show Framed "dn" from ⟨by decide, fun b hb => ?_⟩
    rw [hdn] at hb
    simp only [List.mem_cons, List.not_mem_nil, or_false] at hb
    rcases hb with rfl | rfl <;> decide
  · obtain ⟨⟨name, vals⟩, ha, hp⟩ := List.mem_flatMap.mp h
    obtain ⟨v, -, rfl⟩ := List.mem_map.mp hp
    exact framed_of_safe (List.mem_filter.mp ha).2

theorem mapM_readLdifLine {ps : List (String × Bytes)} (h : ∀ p ∈ ps, Framed p.1) :
    (ps.map fun (name, value) => ldifLine name value).mapM readLdifLine =
      some (ps.map fun (name, value) => (asBytes name, value)) := by
  induction ps with
  | nil => rfl
  | cons p ps ih =>
    obtain ⟨hp, hps⟩ := List.forall_mem_cons.mp h
    rw [List.map_cons, List.mapM_cons, readLdifLine_ldifLine hp, ih hps]
    rfl

/-- The blocks of all entries, one after another. -/
def blocks (entries : List (String × Attrs)) : List (List Bytes) :=
  entries.map fun (dn, attrs) => block dn attrs

theorem foldl_writeLdifEntry (out : Bytes) (entries : List (String × Attrs)) :
    entries.foldl (fun out (dn, attrs) => writeLdifEntry out dn attrs) out =
      out ++ ((blocks entries).flatMap (· ++ [[]])).flatMap (· ++ [0x0a]) := by
  induction entries generalizing out with
  | nil => simp [blocks]
  | cons e entries ih =>
    obtain ⟨dn, attrs⟩ := e
    rw [List.foldl_cons, ih, blocks, blocks, List.map_cons, List.flatMap_cons]
    dsimp only
    have hfront : ∀ front rest : List Bytes, (front ++ rest).flatMap (· ++ [0x0a]) =
        front.flatMap (· ++ [0x0a]) ++ rest.flatMap (· ++ [0x0a]) :=
      fun front rest => List.flatMap_append
    rw [writeLdifEntry_eq, hfront (block dn attrs ++ [[]]), List.append_assoc]

theorem mem_blocks {entries : List (String × Attrs)} {lines : List Bytes}
    (h : lines ∈ blocks entries) : [] ∉ lines ∧ ∀ line ∈ lines, 0x0a ∉ line := by
  obtain ⟨⟨dn, attrs⟩, -, rfl⟩ := List.mem_map.mp h
  refine ⟨fun hmem => ?_, fun line hline => ?_⟩
  · obtain ⟨p, hp, hnil⟩ := List.mem_map.mp hmem
    exact ldifLine_ne_nil (framed_of_mem_pairs hp) hnil
  · obtain ⟨p, hp, rfl⟩ := List.mem_map.mp hline
    exact not_mem_ldifLine (framed_of_mem_pairs hp)

theorem fields_lines (entries : List (String × Attrs)) :
    fields 0x0a (((blocks entries).flatMap (· ++ [[]])).flatMap (· ++ [0x0a])) =
      some ((blocks entries).flatMap (· ++ [[]])) := by
  refine fields_flatMap fun line hline => ?_
  obtain ⟨lines, hblock, hline⟩ := List.mem_flatMap.mp hline
  rcases List.mem_append.mp hline with hline | hline
  · exact (mem_blocks hblock).2 line hline
  · rw [List.mem_singleton.mp hline]
    exact List.not_mem_nil

/-- What an entry says: its name, and its values that are written, in order. -/
def record (dn : String) (attrs : Attrs) : List (Bytes × Bytes) :=
  (asBytes "dn", asBytes dn) ::
    (attrs.filter fun a => ldifNameIsSafe a.1).flatMap fun (name, vals) =>
      vals.map (asBytes name, ·)

theorem readBlock_block (dn : String) (attrs : Attrs) :
    (block dn attrs).mapM readLdifLine = some (record dn attrs) := by
  rw [block, mapM_readLdifLine fun p hp => framed_of_mem_pairs hp, pairs, record, List.map_cons,
    List.map_flatMap]
  simp [Function.comp_def]

/-- The text is read as the entries it was written for, in order, whatever they are. -/
theorem ldif_exact (entries : List (String × Attrs)) :
    readLdif (entries.foldl (fun out (dn, attrs) => writeLdifEntry out dn attrs) []) =
      some (entries.map fun (dn, attrs) => record dn attrs) := by
  have hblocks : fields [] ((blocks entries).flatMap (· ++ [[]])) = some (blocks entries) :=
    fields_flatMap fun lines hlines => (mem_blocks hlines).1
  rw [foldl_writeLdifEntry, List.nil_append, readLdif, fields_lines]
  simp only [Option.bind_eq_bind, Option.bind_some, hblocks]
  clear hblocks
  induction entries with
  | nil => rfl
  | cons e entries ih =>
    obtain ⟨dn, attrs⟩ := e
    rw [blocks, List.map_cons, List.mapM_cons, readBlock_block, ← blocks, ih]
    rfl

end Rsurl.Ldap
