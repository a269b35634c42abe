import Rsurl.Cookie.Jar
import Rsurl.Library.BitString
import Rsurl.Library.Endian
import Rsurl.Net.Addr
import Rsurl.Split

/-!
# Hosts without a proxy

The patterns of `NO_PROXY` cover names by their labels and addresses by their leading bits. A
pattern is taken without the white space and the brackets around it.
-/

namespace Rsurl.Net

open Text Library Library.Endian
open Cookies (lowerByte)

def trimStartMatches (p : Char → Bool) (s : String) : String := String.ofList (s.toList.dropWhile p)

def isDot (c : Char) : Bool := c == '.'

/-- `<[u8]>::eq_ignore_ascii_case`. -/
def bytesEqIgnoreAsciiCase (a b : Bytes) : Bool := a.map lowerByte == b.map lowerByte

/-- The upper `bits` bits of a word. -/
def mask (width bits : Nat) : Nat :=
  if width - bits < width then (2 ^ width - 1) <<< (width - bits) % 2 ^ width else 0

def cidrContains (net bits : String) (ip : IpAddr) : Bool :=
  match parseUnsigned 0xffffffff bits with
  | none => false
  | some bits => match parseIp (unbracket net).toList, ip with
    | some (.v4 a b c d), .v4 e f g h => bits ≤ 32 &&
      fromBe [a, b, c, d] &&& mask 32 bits == fromBe [e, f, g, h] &&& mask 32 bits
    | some (.v6 n), .v6 h => bits ≤ 128 &&
      fromBe n.octets &&& mask 128 bits == fromBe h.octets &&& mask 128 bits
    | _, _ => false

/-- An entry that is an address or a block. -/
def addressMatches (ip : IpAddr) (entry : String) : Bool :=
  match splitOnce '/' entry with
  | some (net, bits) => cidrContains net bits ip
  | none => parseIp entry.toList = some ip

/-- An entry that is a name; `host` is without brackets and trailing dots. -/
def nameMatches (host entry : String) : Bool :=
  let h := asBytes host
  let e := asBytes (trimEndMatches isDot (trimStartMatches isDot entry))
  !e.isEmpty && (bytesEqIgnoreAsciiCase h e || (e.length < h.length &&
    bytesEqIgnoreAsciiCase (h.drop (h.length - e.length)) e &&
    h[h.length - e.length - 1]? == some 0x2e))

def entryMatches (hostIp : Option IpAddr) (host entry : String) : Bool :=
  let entry := trim entry
  if entry = "*" then true
  else
    let entry := unbracket entry
    if entry = "" then false
    else match hostIp with
      | some ip => addressMatches ip entry
      | none => nameMatches host entry

def noProxyMatches (entries : List String) (host : String) : Bool :=
  let hostIp := ipLiteralAddr host
  let host := trimEndMatches isDot (unbracket host)
  entries.any (entryMatches hostIp host)

/-! ## The rule -/

/-- The bits of an address, the first of them first. -/
def IpAddr.bits (ip : IpAddr) : List Bool := byteBits ip.octets

/-- A block of addresses, by the address it is written with and the number of its leading bits. -/
structure InBlock (net : IpAddr) (p : Nat) (ip : IpAddr) : Prop where
  family : net.bits.length = ip.bits.length
  le : p ≤ ip.bits.length
  leading : net.bits.take p = ip.bits.take p

/-- The name, or the end of it from a label on. -/
def NameCovers (pattern name : String) : Prop :=
  eqIgnoreAsciiCase name pattern = true ∨
    ∃ front rest, name.toList = front ++ '.' :: rest ∧
      eqIgnoreAsciiCase (String.ofList rest) pattern = true

inductive Covers (pattern host : String) : Prop where
  | name (hhost : ipLiteralAddr host = none)
    (hne : trimEndMatches isDot (trimStartMatches isDot pattern) ≠ "")
    (h : NameCovers (trimEndMatches isDot (trimStartMatches isDot pattern))
      (trimEndMatches isDot (unbracket host)))
  | address (ip : IpAddr) (hhost : ipLiteralAddr host = some ip)
    (h : parseIp pattern.toList = some ip)
  | block (ip : IpAddr) (hhost : ipLiteralAddr host = some ip) (a t : String) (net : IpAddr)
    (p : Nat) (hpattern : pattern = a ++ "/" ++ t) (hnet : parseIp (unbracket a).toList = some net)
    (hp : parseUnsigned 0xffffffff t = some p) (h : InBlock net p ip)

/-! ## Blocks -/

variable {width p n m : Nat}

theorem testBit_mask (hp : p ≤ width) (i : Nat) :
    (mask width p).testBit i = (decide (i < width) && decide (width - p ≤ i)) := by
  unfold mask
  split
  · rw [Nat.testBit_mod_two_pow, Nat.testBit_shiftLeft, Nat.testBit_two_pow_sub_one]
    grind
  · have hzero : p = 0 := by omega
    subst hzero
    rw [Nat.zero_testBit]
    grind

/-- Words agree under the mask exactly if they agree above it. -/
theorem land_mask_eq_iff (hp : p ≤ width) (hn : n < 2 ^ width) (hm : m < 2 ^ width) :
    n &&& mask width p = m &&& mask width p ↔ n / 2 ^ (width - p) = m / 2 ^ (width - p) := by
  constructor
  · intro h
    apply Nat.eq_of_testBit_eq
    intro i
    rw [Nat.testBit_div_two_pow, Nat.testBit_div_two_pow]
    have hbit := congrArg (Nat.testBit · (i + (width - p))) h
    simp only [Nat.testBit_land, testBit_mask hp] at hbit
    by_cases hi : i + (width - p) < width
    · simpa [hi] using hbit
    · have hle : 2 ^ width ≤ 2 ^ (i + (width - p)) := Nat.pow_le_pow_right (by decide) (by omega)
      rw [Nat.testBit_lt_two_pow (hn.trans_le hle), Nat.testBit_lt_two_pow (hm.trans_le hle)]
  · intro h
    apply Nat.eq_of_testBit_eq
    intro i
    rw [Nat.testBit_land, Nat.testBit_land, testBit_mask hp]
    by_cases hi : width - p ≤ i
    · have hbit := congrArg (Nat.testBit · (i - (width - p))) h
      simp only [Nat.testBit_div_two_pow, Nat.sub_add_cancel hi] at hbit
      rw [hbit]
    · simp [hi]

theorem byteBits_eq_bitsOf (bytes : Bytes) :
    byteBits bytes = bitsOf (8 * bytes.length) (fromBe bytes) := by
  induction bytes using List.reverseRecOn with
  | nil => rfl
  | append_singleton bytes b ih =>
    rw [byteBits_append, ih, fromBe_concat, List.length_append, List.length_singleton, Nat.mul_add,
      bitsOf_shift_byte, byteBits_cons, byteBits_nil, List.append_nil]

theorem take_byteBits {bytes : Bytes} (hp : p ≤ 8 * bytes.length) :
    (byteBits bytes).take p = bitsOf p (fromBe bytes / 2 ^ (8 * bytes.length - p)) := by
  rw [byteBits_eq_bitsOf]
  conv => enter [1, 2, 1]; rw [← Nat.add_sub_cancel' hp]
  rw [bitsOf_add, List.take_left' (length_bitsOf p _)]

/-- The masked words of two addresses agree exactly if the leading bits do. -/
theorem land_mask_fromBe {a b : Bytes} (hlen : a.length = b.length) (hp : p ≤ 8 * b.length) :
    fromBe a &&& mask (8 * b.length) p = fromBe b &&& mask (8 * b.length) p ↔
      (byteBits a).take p = (byteBits b).take p := by
  have hpow : (2 : Nat) ^ (8 * b.length) = 256 ^ b.length := by rw [Nat.pow_mul]
  have ha := fromBe_lt a
  have hb := fromBe_lt b
  rw [hlen, ← hpow] at ha
  rw [← hpow] at hb
  rw [land_mask_eq_iff hp ha hb, take_byteBits (hlen ▸ hp), take_byteBits hp, hlen]
  have hlt (x : Nat) (hx : x < 2 ^ (8 * b.length)) : x / 2 ^ (8 * b.length - p) < 2 ^ p := by
    rw [Nat.div_lt_iff_lt_mul (Nat.two_pow_pos _), ← Nat.pow_add, Nat.add_sub_cancel' hp]
    exact hx
  exact ⟨fun h => by rw [h], fun h => bitsOf_inj (hlt _ ha) (hlt _ hb) h⟩

theorem length_bits (ip : IpAddr) : ip.bits.length = 8 * ip.octets.length := length_byteBits _

/-- The check of a block of the same family. -/
theorem masked_iff {net ip : IpAddr} (hnet : 8 * net.octets.length = width)
    (hip : 8 * ip.octets.length = width) : (decide (p ≤ width) &&
      fromBe net.octets &&& mask width p == fromBe ip.octets &&& mask width p) = true ↔
        InBlock net p ip := by
  have hlen : net.octets.length = ip.octets.length := by omega
  subst hip
  rw [Bool.and_eq_true, decide_eq_true_eq, beq_iff_eq]
  constructor
  · rintro ⟨hp, heq⟩
    exact ⟨by rw [length_bits, length_bits, hlen], by rwa [length_bits],
      (land_mask_fromBe hlen hp).mp heq⟩
  · intro h
    have hp := h.le
    rw [length_bits] at hp
    exact ⟨hp, (land_mask_fromBe hlen hp).mpr h.leading⟩

theorem not_inBlock {net ip : IpAddr} (h : net.octets.length ≠ ip.octets.length) :
    ¬InBlock net p ip := by
  intro hin
  have hfamily := hin.family
  rw [length_bits, length_bits] at hfamily
  omega

theorem cidrContains_iff {net bits : String} {ip : IpAddr} : cidrContains net bits ip = true ↔
    ∃ n p, parseIp (unbracket net).toList = some n ∧ parseUnsigned 0xffffffff bits = some p ∧
      InBlock n p ip := by
  unfold cidrContains
  cases hbits : parseUnsigned 0xffffffff bits with
  | none => simp
  | some p =>
    cases hnet : parseIp (unbracket net).toList with
    | none => simp
    | some n =>
      have hiff : (∃ n' p', some n = some n' ∧ some p = some p' ∧ InBlock n' p' ip) ↔
          InBlock n p ip := by
        grind
      rw [hiff]
      cases n with
      | v4 a b c d =>
        cases ip with
        | v4 e f g h =>
          have hnet : 8 * (IpAddr.v4 a b c d).octets.length = 32 := rfl
          have hip : 8 * (IpAddr.v4 e f g h).octets.length = 32 := rfl
          exact masked_iff hnet hip
        | v6 h => exact iff_of_false nofun (not_inBlock (by simp [IpAddr.octets, h.sized]))
      | v6 addr =>
        have haddr := addr.sized
        cases ip with
        | v4 e f g h => exact iff_of_false nofun (not_inBlock (by simp [IpAddr.octets, haddr]))
        | v6 h =>
          have hnet : 8 * (IpAddr.v6 addr).octets.length = 128 := by simp [IpAddr.octets, haddr]
          have hip : 8 * (IpAddr.v6 h).octets.length = 128 := by simp [IpAddr.octets, h.sized]
          exact masked_iff hnet hip

/-! ## Addresses have no slash -/

variable {α : Type} {s rest : List Char}

/-- What a reader takes off the front has no slash. -/
def KeepsSlash (read : List Char → Option (α × List Char)) : Prop :=
  ∀ {s x rest}, read s = some (x, rest) → '/' ∈ s → '/' ∈ rest

theorem slash_readNumber {p : Char → Bool} (hp : p '/' = false) (maxDigits : Nat) :
    KeepsSlash (Url.readNumber p maxDigits) := by
  intro s x rest h hin
  unfold Url.readNumber at h
  dsimp only at h
  split at h
  · cases h
  · cases h
    have hdrop : s.drop (s.takeWhile p).length = s.dropWhile p := by
      have hleft := @List.drop_left _ (s.takeWhile p) (s.dropWhile p)
      rwa [List.takeWhile_append_dropWhile] at hleft
    rw [← List.takeWhile_append_dropWhile (p := p) (l := s)] at hin
    have hall : '/' ∉ s.takeWhile p := fun hmem => by
      rw [List.mem_takeWhile_imp hmem] at hp
      cases hp
    rw [hdrop]
    exact (List.mem_append.mp hin).resolve_left hall

theorem slash_readSeparator {sep : Char} (hsep : sep ≠ '/') (i : Nat)
    {part : List Char → Option (α × List Char)} (h : KeepsSlash part) :
    KeepsSlash (readSeparator sep i part) := by
  intro s x rest hread hin
  unfold readSeparator at hread
  split at hread
  · exact h hread hin
  · cases s with
    | nil => cases hread
    | cons c s =>
      dsimp only at hread
      split at hread
      · rename_i hc
        exact h hread ((List.mem_cons.mp hin).resolve_left fun heq => hsep (hc ▸ heq.symm))
      · cases hread

theorem slash_readOctet : KeepsSlash readOctet := by
  intro s x rest h hin
  obtain ⟨⟨digits, rest'⟩, hnumber, h⟩ := Option.bind_eq_some_iff.mp h
  dsimp only at h
  split at h
  · cases h
  · obtain ⟨n, -, heq⟩ := Option.map_eq_some_iff.mp h
    cases heq
    exact slash_readNumber (by decide) 3 hnumber hin

theorem slash_readHexGroup : KeepsSlash readHexGroup := by
  intro s x rest h hin
  obtain ⟨⟨digits, rest'⟩, hnumber, h⟩ := Option.bind_eq_some_iff.mp h
  obtain ⟨n, -, heq⟩ := Option.map_eq_some_iff.mp h
  cases heq
  exact slash_readNumber (by decide) 4 hnumber hin

theorem slash_readIpv4 : KeepsSlash readIpv4 := by
  intro s x rest h hin
  obtain ⟨⟨a, s₁⟩, ha, h⟩ := Option.bind_eq_some_iff.mp h
  obtain ⟨⟨b, s₂⟩, hb, h⟩ := Option.bind_eq_some_iff.mp h
  obtain ⟨⟨c, s₃⟩, hc, h⟩ := Option.bind_eq_some_iff.mp h
  obtain ⟨⟨d, s₄⟩, hd, h⟩ := Option.bind_eq_some_iff.mp h
  cases h
  have hdot : '.' ≠ '/' := by decide
  exact slash_readSeparator hdot 3 slash_readOctet hd (slash_readSeparator hdot 2 slash_readOctet hc
    (slash_readSeparator hdot 1 slash_readOctet hb (slash_readSeparator hdot 0 slash_readOctet ha
      hin)))

theorem slash_readGroups (limit left : Nat) (hin : '/' ∈ s) :
    '/' ∈ (readGroups limit left s).2.2 := by
  have hcolon : ':' ≠ '/' := by decide
  induction left generalizing s with
  | zero => exact hin
  | succ left ih =>
    unfold readGroups
    dsimp only
    split
    · rename_i heq
      split at heq
      · exact slash_readSeparator hcolon _ slash_readIpv4 heq hin
      · cases heq
    · split
      · rename_i heq
        exact ih (slash_readSeparator hcolon _ slash_readHexGroup heq hin)
      · exact hin

theorem slash_readIpv6 : KeepsSlash readIpv6 := by
  intro s x rest h hin
  have hgroups := slash_readGroups 8 8 hin
  unfold readIpv6 at h
  rcases readGroups 8 8 s with ⟨head, ipv4, rest'⟩
  dsimp only at h hgroups
  split at h
  · obtain ⟨_, -, heq⟩ := Option.map_eq_some_iff.mp h
    cases heq
    exact hgroups
  split at h
  · cases h
  split at h
  · rename_i tail htail
    rw [htail] at hgroups
    obtain ⟨_, -, heq⟩ := Option.map_eq_some_iff.mp h
    cases heq
    exact slash_readGroups _ _ (by simpa using hgroups)
  · cases h

theorem slash_not_mem_of_parseIp {ip : IpAddr} (h : parseIp s = some ip) : '/' ∉ s := by
  intro hin
  unfold parseIp at h
  split at h
  · rename_i heq
    have hrest := slash_readIpv4 heq hin
    split at h
    · rename_i hempty
      rw [List.isEmpty_iff.mp hempty] at hrest
      cases hrest
    · cases h
  · obtain ⟨addr, haddr, -⟩ := Option.map_eq_some_iff.mp h
    unfold parseIpv6 at haddr
    split at haddr
    · rename_i heq
      cases slash_readIpv6 heq hin
    · cases haddr

/-! ## Names -/

variable {c : Char} {pre suf : Bytes}

/-- A string is split at an ASCII byte as at its character. -/
theorem split_at_ascii {s : List Char} (hc : c.toNat < 0x80)
    (h : asBytes (String.ofList s) = pre ++ UInt8.ofNat c.toNat :: suf) :
    ∃ front rest, s = front ++ c :: rest ∧ suf = asBytes (String.ofList rest) := by
  induction s generalizing pre with
  | nil =>
    rw [asBytes_ofList] at h
    cases pre <;> cases h
  | cons d s ih =>
    rw [asBytes_ofList, List.flatMap_cons, ← asBytes_ofList] at h
    rcases List.append_eq_append_iff.mp h with ⟨mid, rfl, hrest⟩ | ⟨mid, hchar, hrest⟩
    · obtain ⟨front, rest, rfl, hsuf⟩ := ih hrest
      exact ⟨d :: front, rest, rfl, hsuf⟩
    · cases mid with
      | nil =>
        obtain ⟨front, rest, rfl, hsuf⟩ := @ih [] hrest.symm
        exact ⟨d :: front, rest, rfl, hsuf⟩
      | cons b mid =>
        obtain ⟨rfl, rfl⟩ := List.cons.inj hrest
        have hmem : UInt8.ofNat c.toNat ∈ String.utf8EncodeChar d := by simp [hchar]
        have hin : UInt8.ofNat c.toNat ∈ asBytes (String.ofList [d]) := by
          rwa [asBytes_ofList, List.flatMap_singleton]
        rw [mem_asBytes hc, String.toList_ofList, List.mem_singleton] at hin
        subst hin
        rw [utf8EncodeChar_ascii hc] at hchar
        have hmid : mid = [] := by
          have hlen := congrArg List.length hchar
          simp only [List.length_append, List.length_cons, List.length_nil] at hlen
          exact List.length_eq_zero_iff.mp (by omega)
        subst hmid
        exact ⟨[], s, rfl, rfl⟩

theorem utf8EncodeChar_toLower (c : Char) :
    String.utf8EncodeChar c.toLower = (String.utf8EncodeChar c).map lowerByte := by
  by_cases hc : c.toNat < 0x80
  · have hall : ∀ n < 0x80, String.utf8EncodeChar (Char.ofNat n).toLower =
        (String.utf8EncodeChar (Char.ofNat n)).map lowerByte := by decide +kernel
    simpa [Char.ofNat_toNat] using hall c.toNat hc
  · have hupper : ¬c.isUpper = true := by
      intro h
      have hZ : c.toNat ≤ 'Z'.toNat := by
        simp only [Char.isUpper, Bool.and_eq_true, decide_eq_true_eq] at h
        exact UInt32.le_iff_toNat_le.mp h.2
      have hvalue : 'Z'.toNat = 90 := rfl
      omega
    have hself : ∀ b ∈ String.utf8EncodeChar c, lowerByte b = b := by
      intro b hb
      have hle := le_of_mem_utf8EncodeChar (Nat.le_of_not_lt hc) hb
      unfold lowerByte
      grind
    rw [Char.toLower_eq_of_not_isUpper hupper, List.map_congr_left hself, List.map_id']

theorem asBytes_toAsciiLowercase (s : String) :
    asBytes (toAsciiLowercase s) = (asBytes s).map lowerByte := by
  rw [asBytes_eq_flatMap, asBytes_eq_flatMap, toAsciiLowercase, String.toList_ofList,
    List.flatMap_map, List.map_flatMap]
  exact List.flatMap_congr fun c _ => utf8EncodeChar_toLower c

theorem bytesEqIgnoreAsciiCase_asBytes (s t : String) :
    bytesEqIgnoreAsciiCase (asBytes s) (asBytes t) = eqIgnoreAsciiCase s t := by
  rw [bytesEqIgnoreAsciiCase, ← asBytes_toAsciiLowercase, ← asBytes_toAsciiLowercase,
    eqIgnoreAsciiCase, Bool.eq_iff_iff, beq_iff_eq, beq_iff_eq]
  exact asBytes_injective.eq_iff

theorem length_eq_of_bytesEq {a b : Bytes} (h : bytesEqIgnoreAsciiCase a b = true) :
    a.length = b.length := by
  have hlen := congrArg List.length (beq_iff_eq.mp h)
  rwa [List.length_map, List.length_map] at hlen

/-- What stands behind a byte of a list is the end that is looked at. -/
theorem endsWith_iff {h e : Bytes} : (decide (e.length < h.length) &&
    bytesEqIgnoreAsciiCase (h.drop (h.length - e.length)) e &&
    h[h.length - e.length - 1]? == some 0x2e) = true ↔
      ∃ pre suf, h = pre ++ 0x2e :: suf ∧ bytesEqIgnoreAsciiCase suf e = true := by
  rw [Bool.and_eq_true, Bool.and_eq_true, decide_eq_true_eq, beq_iff_eq]
  constructor
  · rintro ⟨⟨hlen, heq⟩, hdot⟩
    obtain ⟨hlt, hget⟩ := List.getElem?_eq_some_iff.mp hdot
    refine ⟨h.take (h.length - e.length - 1), h.drop (h.length - e.length), ?_, heq⟩
    have hdrop := List.drop_eq_getElem_cons hlt
    rw [hget, Nat.sub_add_cancel (by omega)] at hdrop
    rw [← hdrop, List.take_append_drop]
  · rintro ⟨pre, suf, rfl, heq⟩
    have hlen := length_eq_of_bytesEq heq
    have hstart : (pre ++ 0x2e :: suf).length - e.length = pre.length + 1 := by
      rw [List.length_append, List.length_cons]
      omega
    rw [hstart, List.length_append, List.length_cons]
    refine ⟨⟨by omega, ?_⟩, by simp⟩
    rwa [← List.drop_drop, List.drop_left, List.drop_one, List.tail_cons]

/-- The bytes of a name that end in a dot and the pattern are the characters that do. -/
theorem nameCovers_iff {name pattern : String} : NameCovers pattern name ↔
    bytesEqIgnoreAsciiCase (asBytes name) (asBytes pattern) = true ∨
      ∃ pre suf, asBytes name = pre ++ 0x2e :: suf ∧
        bytesEqIgnoreAsciiCase suf (asBytes pattern) = true := by
  unfold NameCovers
  rw [bytesEqIgnoreAsciiCase_asBytes]
  refine or_congr_right ⟨?_, ?_⟩
  · rintro ⟨front, rest, hname, heq⟩
    refine ⟨asBytes (String.ofList front), asBytes (String.ofList rest), ?_, ?_⟩
    · rw [← String.ofList_toList (s := name), hname, String.ofList_append, asBytes_append,
        asBytes_cons (by decide)]
      rfl
    · rwa [bytesEqIgnoreAsciiCase_asBytes]
  · rintro ⟨pre, suf, hname, heq⟩
    rw [← String.ofList_toList (s := name)] at hname
    obtain ⟨front, rest, hfront, rfl⟩ := split_at_ascii (c := '.') (by decide) hname
    exact ⟨front, rest, hfront, by rwa [bytesEqIgnoreAsciiCase_asBytes] at heq⟩

/-! ## The list -/

variable {host entry : String}

theorem slash_not_mem_of_unbracket {ip : IpAddr} (h : parseIp (unbracket entry).toList = some ip) :
    '/' ∉ entry.toList := by
  have hnot := slash_not_mem_of_parseIp h
  unfold unbracket at hnot
  split at hnot
  · rename_i rest heq
    split at hnot
    · rename_i hlast
      rw [String.toList_ofList] at hnot
      rw [heq, ← List.dropLast_append_getLast? _ hlast]
      simpa using hnot
    · exact hnot
  · exact hnot

/-- A pattern against the address of the host. -/
theorem addressMatches_iff {ip : IpAddr} (hhost : ipLiteralAddr host = some ip) :
    addressMatches ip entry = true ↔ Covers entry host := by
  unfold addressMatches
  constructor
  · intro h
    split at h
    · rename_i net bits hsplit
      obtain ⟨heq, -⟩ := splitOnce_eq_some.mp hsplit
      obtain ⟨n, p, hn, hp, hin⟩ := cidrContains_iff.mp h
      have hpattern : entry = net ++ "/" ++ bits := String.toList_injective (by simp [heq])
      exact .block ip hhost net bits n p hpattern hn hp hin
    · exact .address ip hhost (of_decide_eq_true h)
  · intro h
    cases h with
    | name hname => rw [hhost] at hname; cases hname
    | address ip' hip h =>
      rw [hhost] at hip
      cases hip
      rw [splitOnce_eq_none.mpr (slash_not_mem_of_parseIp h)]
      exact decide_eq_true h
    | block ip' hip a t net p hpattern hnet hp h =>
      rw [hhost] at hip
      cases hip
      have hsplit : splitOnce '/' entry = some (a, t) :=
        splitOnce_of_toList (by simp [hpattern]) (slash_not_mem_of_unbracket hnet)
      rw [hsplit]
      exact cidrContains_iff.mpr ⟨net, p, hnet, hp, h⟩

/-- A pattern against the name of the host. -/
theorem nameMatches_iff (hhost : ipLiteralAddr host = none) :
    nameMatches (trimEndMatches isDot (unbracket host)) entry = true ↔ Covers entry host := by
  unfold nameMatches
  dsimp only
  rw [Bool.and_eq_true, Bool.or_eq_true, endsWith_iff, ← nameCovers_iff, Bool.not_eq_true',
    List.isEmpty_eq_false_iff, Ne, asBytes_eq_nil]
  constructor
  · rintro ⟨hne, h⟩
    exact .name hhost hne h
  · intro h
    cases h with
    | name _ hne h => exact ⟨hne, h⟩
    | address ip hip => rw [hhost] at hip; cases hip
    | block ip hip => rw [hhost] at hip; cases hip

theorem not_covers_empty : ¬Covers "" host := by
  intro h
  cases h with
  | name _ hne => exact hne (by decide)
  | address _ _ h =>
    have hnone : parseIp "".toList = none := by decide
    rw [hnone] at h
    cases h
  | block _ _ a t _ _ hpattern =>
    have hlen := congrArg (fun s => s.toList.length) hpattern
    simp at hlen

/-- One pattern. -/
theorem entryMatches_iff : entryMatches (ipLiteralAddr host)
    (trimEndMatches isDot (unbracket host)) entry = true ↔
      trim entry = "*" ∨ Covers (unbracket (trim entry)) host := by
  unfold entryMatches
  dsimp only
  by_cases hall : trim entry = "*"
  · rw [if_pos hall]
    exact iff_of_true rfl (.inl hall)
  rw [if_neg hall, or_iff_right hall]
  by_cases hempty : unbracket (trim entry) = ""
  · rw [if_pos hempty, hempty]
    exact iff_of_false nofun not_covers_empty
  rw [if_neg hempty]
  cases hhost : ipLiteralAddr host with
  | none => exact nameMatches_iff hhost
  | some ip => exact addressMatches_iff hhost

/-- A host needs no proxy exactly if one of the patterns covers it. -/
theorem noProxyMatches_iff (entries : List String) (host : String) :
    noProxyMatches entries host = true ↔
      ∃ entry ∈ entries, trim entry = "*" ∨ Covers (unbracket (trim entry)) host := by
  unfold noProxyMatches
  rw [List.any_eq_true]
  exact exists_congr fun entry => and_congr_right fun _ => entryMatches_iff

/-- A pattern is not taken with the white space in front of it. -/
theorem not_verbatim : ¬∀ (entries : List String) (host : String),
    noProxyMatches entries host = true ↔ ∃ entry ∈ entries, entry = "*" ∨ Covers entry host := by
  intro h
  obtain ⟨entry, hentry, hcovers⟩ := (h [" a"] "a").mp (by decide)
  rw [List.mem_singleton] at hentry
  subst hentry
  have hhost : ipLiteralAddr "a" = none := by decide
  have hname : unbracket "a" = "a" ∧ trimEndMatches isDot "a" = "a" := by decide
  rcases hcovers with hall | ⟨_, _, heq | ⟨front, rest, hsplit, -⟩⟩ | ⟨ip, hip, -⟩ | ⟨ip, hip, -⟩
  · exact absurd hall (by decide)
  · exact absurd heq (by decide)
  · rw [hname.1, hname.2] at hsplit
    have hdot : '.' ∈ "a".toList := by simp [hsplit]
    exact absurd hdot (by decide)
  · rw [hhost] at hip
    cases hip
  · rw [hhost] at hip
    cases hip

end Rsurl.Net
