import Rsurl.Ldap.Legal

/-!
# Reading a filter back

An encoding is a tree of TLVs. What the protocol says a filter is, read over `readTlv`, gives back
the filter that was encoded, and so a filter that is sent says what its text does.
-/

namespace Rsurl.Ldap

open Library Text

variable {text : Bytes} {f : Filter} {fs : List Filter} {tag : UInt8} {value : Bytes}

/-! ## Sequences of TLVs -/

/-- Every TLV of a content. -/
def readTlvs (data : Bytes) : Option (List Tlv) :=
  if data.isEmpty then some []
  else match readTlv data with
    | .ok (tlv, rest) => if rest.length < data.length then (readTlvs rest).map (tlv :: ·) else none
    | _ => none
termination_by data.length

def writeTlvs (tlvs : List Tlv) : Bytes := tlvs.flatMap fun tlv => writeTlv [] tlv.tag tlv.value

theorem writeTlvs_cons (tlv : Tlv) (tlvs : List Tlv) :
    writeTlvs (tlv :: tlvs) = writeTlv [] tlv.tag tlv.value ++ writeTlvs tlvs := rfl

theorem writeTlvs_append (tlvs tlvs' : List Tlv) :
    writeTlvs (tlvs ++ tlvs') = writeTlvs tlvs ++ writeTlvs tlvs' := List.flatMap_append

theorem length_lt_writeTlv (tag : UInt8) (value : Bytes) :
    value.length < (writeTlv [] tag value).length := by
  simp only [writeTlv, List.nil_append, List.cons_append, List.length_cons, List.length_append]
  omega

theorem length_lt_writeTlvs {tlv : Tlv} {tlvs : List Tlv} (h : tlv ∈ tlvs) :
    tlv.value.length < (writeTlvs tlvs).length := by
  obtain ⟨before, after, rfl⟩ := List.append_of_mem h
  have hlt := length_lt_writeTlv tlv.tag tlv.value
  rw [writeTlvs_append, writeTlvs_cons, List.length_append, List.length_append]
  omega

theorem readTlvs_writeTlvs {tlvs : List Tlv} (h : (writeTlvs tlvs).length < 2 ^ 64) :
    readTlvs (writeTlvs tlvs) = some tlvs := by
  induction tlvs with
  | nil =>
    rw [readTlvs]
    rfl
  | cons tlv tlvs ih =>
    have hvalue := length_lt_writeTlvs (List.mem_cons_self (a := tlv) (l := tlvs))
    have hhead := length_lt_writeTlv tlv.tag tlv.value
    rw [writeTlvs_cons] at h hvalue ⊢
    rw [List.length_append] at h hvalue
    have hne : (writeTlv [] tlv.tag tlv.value ++ writeTlvs tlvs).isEmpty = false := by
      simp [writeTlv]
    rw [readTlvs, hne, if_neg Bool.false_ne_true, readTlv_writeTlv _ (by omega)]
    simp only [List.length_append]
    rw [if_pos (by omega), ih (by omega)]
    rfl

/-! ## Filters as TLVs -/

def optional (tag : UInt8) : Option Bytes → List Tlv
  | some value => [⟨tag, value⟩]
  | none => []

def assertion (attr : String) (value : Bytes) : List Tlv :=
  [⟨Tag.octetString, asBytes attr⟩, ⟨Tag.octetString, value⟩]

mutual

/-- The TLV a filter is. -/
def Filter.tlv : Filter → Tlv
  | .and items => ⟨Tag.ctx 0 true, writeTlvs (tlvAll items)⟩
  | .or items => ⟨Tag.ctx 1 true, writeTlvs (tlvAll items)⟩
  | .not inner => ⟨Tag.ctx 2 true, writeTlvs [inner.tlv]⟩
  | .equalityMatch attr value => ⟨Tag.ctx 3 true, writeTlvs (assertion attr value)⟩
  | .greaterOrEqual attr value => ⟨Tag.ctx 5 true, writeTlvs (assertion attr value)⟩
  | .lessOrEqual attr value => ⟨Tag.ctx 6 true, writeTlvs (assertion attr value)⟩
  | .approxMatch attr value => ⟨Tag.ctx 8 true, writeTlvs (assertion attr value)⟩
  | .substrings attr initial any final => ⟨Tag.ctx 4 true, writeTlvs
      [⟨Tag.octetString, asBytes attr⟩, ⟨Tag.sequence, writeTlvs (optional (Tag.ctx 0 false) initial ++
        any.map (⟨Tag.ctx 1 false, ·⟩) ++ optional (Tag.ctx 2 false) final)⟩]⟩
  | .present attr => ⟨Tag.ctx 7 false, asBytes attr⟩
  | .extensibleMatch rule attrType value dn => ⟨Tag.ctx 9 true, writeTlvs
      (optional (Tag.ctx 1 false) (rule.map asBytes) ++
        optional (Tag.ctx 2 false) (attrType.map asBytes) ++ [⟨Tag.ctx 3 false, value⟩] ++
        optional (Tag.ctx 4 false) (if dn then some [0xff] else none))⟩

def tlvAll : List Filter → List Tlv
  | [] => []
  | f :: fs => f.tlv :: tlvAll fs

end

theorem writeTlv_tlvs (out : Bytes) (tag : UInt8) (value : Bytes) :
    writeTlv out tag value = out ++ writeTlvs [⟨tag, value⟩] := by
  rw [writeTlv_eq]
  simp [writeTlvs]

theorem writeOctetString_eq (out s : Bytes) :
    writeOctetString out s = out ++ writeTlvs [⟨Tag.octetString, s⟩] := writeTlv_tlvs out _ s

theorem writeOptional_eq (out : Bytes) (tag : UInt8) (value : Option Bytes) :
    writeOptional out tag value = out ++ writeTlvs (optional tag value) := by
  cases value with
  | none => simp [writeOptional, optional, writeTlvs]
  | some value => exact writeTlv_tlvs out tag value

theorem foldl_writeTlv (out : Bytes) (tag : UInt8) (values : List Bytes) :
    values.foldl (fun subs s => writeTlv subs tag s) out =
      out ++ writeTlvs (values.map (⟨tag, ·⟩)) := by
  induction values generalizing out with
  | nil => simp [writeTlvs]
  | cons value values ih =>
    rw [List.foldl_cons, ih, writeTlv_eq, List.map_cons, writeTlvs_cons, List.append_assoc]

/-- A body that is written as TLVs. -/
theorem writeConstructed_tlvs {out : Bytes} {tag : UInt8} {body : Bytes → Bytes} {tlvs : List Tlv}
    (h : ∀ out, body out = out ++ writeTlvs tlvs) :
    writeConstructed out tag body = out ++ writeTlvs [⟨tag, writeTlvs tlvs⟩] := by
  rw [writeConstructed_eq (h _), writeTlv_tlvs]

theorem writeAssertion_eq (out : Bytes) (n : UInt8) (attr : String) (value : Bytes) :
    writeAssertion out n attr value =
      out ++ writeTlvs [⟨Tag.ctx n true, writeTlvs (assertion attr value)⟩] := by
  refine writeConstructed_tlvs fun out => ?_
  rw [writeOctetString_eq, writeOctetString_eq, List.append_assoc, ← writeTlvs_append]
  rfl

mutual

theorem encodeFilter_eq (out : Bytes) (f : Filter) : encodeFilter out f = out ++ writeTlvs [f.tlv] := by
  cases f with
  | and items =>
    rw [encodeFilter, Filter.tlv]
    exact writeConstructed_tlvs fun w => encodeAll_eq w items
  | or items =>
    rw [encodeFilter, Filter.tlv]
    exact writeConstructed_tlvs fun w => encodeAll_eq w items
  | not inner =>
    rw [encodeFilter, Filter.tlv]
    exact writeConstructed_tlvs fun w => encodeFilter_eq w inner
  | equalityMatch attr value => rw [encodeFilter, Filter.tlv, writeAssertion_eq]
  | greaterOrEqual attr value => rw [encodeFilter, Filter.tlv, writeAssertion_eq]
  | lessOrEqual attr value => rw [encodeFilter, Filter.tlv, writeAssertion_eq]
  | approxMatch attr value => rw [encodeFilter, Filter.tlv, writeAssertion_eq]
  | substrings attr initial any final =>
    rw [encodeFilter, Filter.tlv]
    refine writeConstructed_tlvs fun w => ?_
    rw [writeConstructed_tlvs fun subs => ?_, writeOctetString_eq, List.append_assoc,
      ← writeTlvs_append, List.singleton_append]
    dsimp only
    rw [writeOptional_eq, foldl_writeTlv, writeOptional_eq, writeTlvs_append, writeTlvs_append]
    simp only [List.append_assoc]
  | present attr => rw [encodeFilter, Filter.tlv, writeTlv_tlvs]
  | extensibleMatch rule attrType value dn =>
    rw [encodeFilter, Filter.tlv]
    refine writeConstructed_tlvs fun w => ?_
    dsimp only
    rw [writeOptional_eq, writeOptional_eq, writeTlv_tlvs _ (Tag.ctx 3 false)]
    simp only [writeTlvs_append, ← List.append_assoc]
    cases dn with
    | false => exact (List.append_nil _).symm
    | true => exact writeTlv_tlvs _ _ _

theorem encodeAll_eq (out : Bytes) (fs : List Filter) :
    encodeAll out fs = out ++ writeTlvs (tlvAll fs) := by
  cases fs with
  | nil => simp [encodeAll, tlvAll, writeTlvs]
  | cons f fs =>
    rw [encodeAll, encodeFilter_eq out f, encodeAll_eq _ fs, List.append_assoc, ← writeTlvs_append,
      List.singleton_append, tlvAll]

end

/-! ## Reading -/

/-- A field with the tag, if there is one. -/
def takeField (tag : UInt8) : List Tlv → Option Bytes × List Tlv
  | tlv :: tlvs => if tlv.tag = tag then (some tlv.value, tlvs) else (none, tlv :: tlvs)
  | [] => (none, [])

/-- `SEQUENCE { AttributeDescription, AssertionValue }` -/
def readAssertion (content : Bytes) : Option (String × Bytes) :=
  match readTlvs content with
  | some [⟨0x04, attr⟩, ⟨0x04, value⟩] => (fromUtf8 attr).map (·, value)
  | _ => none

/-- At most one initial segment, which is the first, and one final, which is the last. -/
def readSegments (tlvs : List Tlv) : Option Segments :=
  let (initial, tlvs) := takeField (Tag.ctx 0 false) tlvs
  let any := tlvs.takeWhile (·.tag = Tag.ctx 1 false)
  let (final, tlvs) := takeField (Tag.ctx 2 false) (tlvs.drop any.length)
  if tlvs.isEmpty then some ⟨initial, any.map Tlv.value, final⟩ else none

def readSubstrings (content : Bytes) : Option Filter :=
  match readTlvs content with
  | some [⟨0x04, attr⟩, ⟨0x30, content⟩] => do
    let attr ← fromUtf8 attr
    let tlvs ← readTlvs content
    let segs ← readSegments tlvs
    some (.substrings attr segs.initial segs.any segs.final)
  | _ => none

/-- A text that may be missing. -/
def readText : Option Bytes → Option (Option String)
  | some bytes => (fromUtf8 bytes).map some
  | none => some none

def readExtensible (content : Bytes) : Option Filter := do
  let tlvs ← readTlvs content
  let (rule, tlvs) := takeField (Tag.ctx 1 false) tlvs
  let (attrType, tlvs) := takeField (Tag.ctx 2 false) tlvs
  let rule ← readText rule
  let attrType ← readText attrType
  match tlvs with
  | [⟨0x83, value⟩] => some (.extensibleMatch rule attrType value false)
  | [⟨0x83, value⟩, ⟨0x84, [0xff]⟩] => some (.extensibleMatch rule attrType value true)
  | _ => none

/-- A `Filter` with fewer than `left` levels of nesting. -/
def readFilter : Nat → Tlv → Option Filter
  | 0, _ => none
  | left + 1, ⟨tag, content⟩ => match tag with
    | 0xa0 => do
      let fs ← (← readTlvs content).mapM (readFilter left)
      some (.and fs)
    | 0xa1 => do
      let fs ← (← readTlvs content).mapM (readFilter left)
      some (.or fs)
    | 0xa2 => do
      let [tlv] ← readTlvs content | none
      let f ← readFilter left tlv
      some (.not f)
    | 0xa3 => (readAssertion content).map fun (attr, value) => .equalityMatch attr value
    | 0xa5 => (readAssertion content).map fun (attr, value) => .greaterOrEqual attr value
    | 0xa6 => (readAssertion content).map fun (attr, value) => .lessOrEqual attr value
    | 0xa8 => (readAssertion content).map fun (attr, value) => .approxMatch attr value
    | 0xa4 => readSubstrings content
    | 0x87 => (fromUtf8 content).map .present
    | 0xa9 => readExtensible content
    | _ => none

/-! ## Reading what was written -/

theorem takeField_optional (value : Option Bytes) {tlvs : List Tlv}
    (h : ∀ tlv ∈ tlvs.head?, tlv.tag ≠ tag) :
    takeField tag (optional tag value ++ tlvs) = (value, tlvs) := by
  cases value with
  | some value => exact if_pos rfl
  | none =>
    cases tlvs with
    | nil => rfl
    | cons tlv tlvs => exact if_neg (h tlv rfl)

theorem readAssertion_writeTlvs {attr : String}
    (h : (writeTlvs (assertion attr value)).length < 2 ^ 64) :
    readAssertion (writeTlvs (assertion attr value)) = some (attr, value) := by
  rw [readAssertion, readTlvs_writeTlvs h]
  simp [assertion, Tag.octetString]

theorem readSegments_eq (initial final : Option Bytes) (any : List Bytes) :
    readSegments (optional (Tag.ctx 0 false) initial ++ any.map (⟨Tag.ctx 1 false, ·⟩) ++
      optional (Tag.ctx 2 false) final) = some ⟨initial, any, final⟩ := by
  have hfinal : ∀ tlv ∈ (optional (Tag.ctx 2 false) final).head?, tlv.tag = Tag.ctx 2 false := by
    cases final <;> simp [optional]
  have hhead : ∀ tlv ∈ (any.map (Tlv.mk (Tag.ctx 1 false)) ++
      optional (Tag.ctx 2 false) final).head?, tlv.tag ≠ Tag.ctx 0 false := by
    intro tlv htlv
    cases any with
    | nil =>
      rw [hfinal tlv htlv]
      decide
    | cons value any =>
      cases htlv
      exact show Tag.ctx 1 false ≠ Tag.ctx 0 false by decide
  have hany : (any.map (Tlv.mk (Tag.ctx 1 false)) ++ optional (Tag.ctx 2 false) final).takeWhile
      (·.tag = Tag.ctx 1 false) = any.map (Tlv.mk (Tag.ctx 1 false)) := by
    rw [List.takeWhile_append_of_pos (by simp)]
    cases final with
    | none => exact List.append_nil _
    | some value =>
      have hne : Tag.ctx 2 false ≠ Tag.ctx 1 false := by decide
      rw [optional, List.takeWhile_cons_of_neg (by simpa using hne), List.append_nil]
  rw [readSegments, List.append_assoc, takeField_optional _ hhead]
  dsimp only
  rw [hany, List.drop_left, ← List.append_nil (optional (Tag.ctx 2 false) final),
    takeField_optional _ (by simp)]
  simp [Function.comp_def]

theorem readText_map (text : Option String) : readText (text.map asBytes) = some text := by
  cases text with
  | none => rfl
  | some text => simp [readText]

theorem readSubstrings_tlv (attr : String) (initial final : Option Bytes) (any : List Bytes)
    (h : (Filter.substrings attr initial any final).tlv.value.length < 2 ^ 64) :
    readSubstrings (Filter.substrings attr initial any final).tlv.value =
      some (.substrings attr initial any final) := by
  rw [Filter.tlv] at h ⊢
  have hsegs := length_lt_writeTlvs (List.mem_cons_of_mem ⟨Tag.octetString, asBytes attr⟩
    (List.mem_singleton_self ⟨Tag.sequence, writeTlvs (optional (Tag.ctx 0 false) initial ++
      any.map (⟨Tag.ctx 1 false, ·⟩) ++ optional (Tag.ctx 2 false) final)⟩))
  rw [readSubstrings, readTlvs_writeTlvs h]
  simp only [Tag.octetString, Tag.sequence, fromUtf8_asBytes, Option.bind_eq_bind, Option.bind_some]
  rw [readTlvs_writeTlvs (Nat.lt_trans hsegs h), Option.bind_some, readSegments_eq, Option.bind_some]

theorem readExtensible_tlv (rule attrType : Option String) (value : Bytes) (dn : Bool)
    (h : (Filter.extensibleMatch rule attrType value dn).tlv.value.length < 2 ^ 64) :
    readExtensible (Filter.extensibleMatch rule attrType value dn).tlv.value =
      some (.extensibleMatch rule attrType value dn) := by
  rw [Filter.tlv] at h ⊢
  rw [readExtensible, readTlvs_writeTlvs h]
  dsimp only [Bind.bind, Option.bind]
  rw [List.append_assoc, List.append_assoc, takeField_optional]
  · dsimp only
    rw [takeField_optional _ (by simp; decide)]
    dsimp only
    rw [readText_map, readText_map]
    cases dn <;> rfl
  · cases attrType <;> simp [optional] <;> decide

mutual

theorem readFilter_tlv {left : Nat} (f : Filter) (hdepth : f.depth < left)
    (h : f.tlv.value.length < 2 ^ 64) : readFilter left f.tlv = some f := by
  obtain ⟨left, rfl⟩ := Nat.exists_eq_succ_of_ne_zero (Nat.ne_of_gt (Nat.zero_lt_of_lt hdepth))
  cases f with
  | and items =>
    have hall := readAll_tlv items (Nat.lt_of_succ_lt_succ hdepth) h
    change readFilter (left + 1) ⟨0xa0, writeTlvs (tlvAll items)⟩ = _
    simp [readFilter, readTlvs_writeTlvs h, hall]
  | or items =>
    have hall := readAll_tlv items (Nat.lt_of_succ_lt_succ hdepth) h
    change readFilter (left + 1) ⟨0xa1, writeTlvs (tlvAll items)⟩ = _
    simp [readFilter, readTlvs_writeTlvs h, hall]
  | not inner =>
    have hlt := length_lt_writeTlvs (List.mem_singleton_self inner.tlv)
    have hinner := readFilter_tlv inner (Nat.lt_of_succ_lt_succ hdepth) (Nat.lt_trans hlt h)
    change readFilter (left + 1) ⟨0xa2, writeTlvs [inner.tlv]⟩ = _
    simp [readFilter, readTlvs_writeTlvs h, hinner]
  | equalityMatch attr value =>
    change readFilter (left + 1) ⟨0xa3, writeTlvs (assertion attr value)⟩ = _
    simp [readFilter, readAssertion_writeTlvs h]
  | greaterOrEqual attr value =>
    change readFilter (left + 1) ⟨0xa5, writeTlvs (assertion attr value)⟩ = _
    simp [readFilter, readAssertion_writeTlvs h]
  | lessOrEqual attr value =>
    change readFilter (left + 1) ⟨0xa6, writeTlvs (assertion attr value)⟩ = _
    simp [readFilter, readAssertion_writeTlvs h]
  | approxMatch attr value =>
    change readFilter (left + 1) ⟨0xa8, writeTlvs (assertion attr value)⟩ = _
    simp [readFilter, readAssertion_writeTlvs h]
  | substrings attr initial any final =>
    exact readSubstrings_tlv attr initial final any h
  | present attr =>
    change readFilter (left + 1) ⟨0x87, asBytes attr⟩ = _
    simp [readFilter]
  | extensibleMatch rule attrType value dn =>
    exact readExtensible_tlv rule attrType value dn h

theorem readAll_tlv {left : Nat} (fs : List Filter) (hdepth : depthAll fs < left)
    (h : (writeTlvs (tlvAll fs)).length < 2 ^ 64) :
    (tlvAll fs).mapM (readFilter left) = some fs := by
  cases fs with
  | nil => rfl
  | cons f fs =>
    obtain ⟨hf, hfs⟩ := max_lt_iff.mp hdepth
    have hvalue := length_lt_writeTlvs (List.mem_cons_self (a := f.tlv) (l := tlvAll fs))
    rw [tlvAll] at h
    have hrest : (writeTlvs (tlvAll fs)).length < 2 ^ 64 := by
      rw [writeTlvs_cons, List.length_append] at h
      omega
    rw [tlvAll, List.mapM_cons, readFilter_tlv f hf (Nat.lt_trans hvalue h), readAll_tlv fs hfs hrest]
    rfl

end

/-- What is sent for a filter, read back. -/
theorem readFilter_encodeFilter {left : Nat} (hdepth : f.depth < left)
    (h : (encodeFilter [] f).length < 2 ^ 64) :
    ∃ tlv, readTlv (encodeFilter [] f) = .ok (tlv, []) ∧ readFilter left tlv = some f := by
  rw [encodeFilter_eq, List.nil_append] at h ⊢
  have hvalue := Nat.lt_trans (length_lt_writeTlvs (List.mem_singleton_self f.tlv)) h
  refine ⟨f.tlv, ?_, readFilter_tlv f hdepth hvalue⟩
  exact readTlv_writeTlv f.tlv.tag hvalue []

/-! ## Sending a filter -/

/-- The encoding of the filter is one of a legal filter that says what the text does. -/
structure Sent (s : String) (f : Filter) : Prop where
  denotes : Denotes (asBytes s) [f]
  legal : f.Legal
  depth : f.depth ≤ maxFilterDepth
  readBack : ∃ tlv, readTlv (encodeFilter [] f) = .ok (tlv, []) ∧
    readFilter (maxFilterDepth + 1) tlv = some f

end Rsurl.Ldap
