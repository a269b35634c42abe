import Rsurl.Ascii
import Rsurl.Library.Checked
import Rsurl.Split
import Rsurl.Sigv4

/-!
# Dates of HTTP

The date of a second is written with its weekday and reads back as the second. The reader takes
days, hours, minutes and seconds as they come, with 64 bits for what it computes from them.
-/

namespace Rsurl.Cli

open Text Library Library.Calendar
open Cookies (parseI64)
open Sigv4 (civilTime zeroPad)

def weekdayNames : List String := ["Sun", "Mon", "Tue", "Wed", "Thu", "Fri", "Sat"]

def monthNames : List String :=
  ["Jan", "Feb", "Mar", "Apr", "May", "Jun", "Jul", "Aug", "Sep", "Oct", "Nov", "Dec"]

/-- The fields of a date as they are written. -/
structure Fields where
  day : Int
  month : Nat
  year : Int
  hour : Int
  minute : Int
  second : Int
  deriving DecidableEq

/-- The words behind the weekday. -/
def dateTokens (s : String) : List String :=
  let s := trim s
  splitWhitespace (match splitOnceAt ", ".toList s.toList with
    | some (_, r) => String.ofList r
    | none => s)

def timeFields (time : String) : Option (Int × Int × Int) :=
  match split ':' time with
  | hh :: mm :: ss :: _ => do return (← parseI64 hh, ← parseI64 mm, ← parseI64 ss)
  | _ => none

def dateFields (s : String) : Option Fields :=
  match dateTokens s with
  | day :: mon :: year :: time :: _ => do
    let day ← parseI64 day
    let mon ← monthNames.idxOf? mon
    let year ← parseI64 year
    let (hh, mm, ss) ← timeFields time
    return ⟨day, mon + 1, year, hh, mm, ss⟩
  | _ => none

def IsI64 (n : Int) : Prop := -2 ^ 63 ≤ n ∧ n < 2 ^ 63

instance (n : Int) : Decidable (IsI64 n) := inferInstanceAs (Decidable (_ ∧ _))

/-- The result of an operation, which overflows if it is no `i64`. -/
def i64 (n : Int) : Checked Unit Int := if IsI64 n then .ok n else .stuck

/-- The year, started in March. -/
def yearOf (f : Fields) : Checked Unit Int :=
  if f.month ≤ 2 then i64 (f.year - 1) else .ok f.year

/-- What the eras are counted in, so that the division rounds down. -/
def eraYear (y : Int) : Checked Unit Int := if 0 ≤ y then .ok y else i64 (y - 399)

/-- The era of the year, and the year of the era. -/
def eraOf (f : Fields) : Checked Unit (Int × Int) := do
  let y ← yearOf f
  let n ← eraYear y
  let era := n.tdiv 400
  let start ← i64 (era * 400)
  let yoe ← i64 (y - start)
  return (era, yoe)

def daysOf (f : Fields) : Checked Unit Int := do
  let (era, yoe) ← eraOf f
  let mp : Nat := if 2 < f.month then f.month - 3 else f.month + 9
  let doy ← i64 (((153 * mp + 2) / 5 : Nat) + f.day)
  let doy ← i64 (doy - 1)
  let doe ← i64 (yoe * 365)
  let doe ← i64 (doe + yoe.tdiv 4)
  let doe ← i64 (doe - yoe.tdiv 100)
  let doe ← i64 (doe + doy)
  let days ← i64 (era * 146097)
  let days ← i64 (days + doe)
  i64 (days - 719468)

/-- `error` is the absence of a result. -/
def epochOf (f : Fields) : Checked Unit Nat := do
  let days ← daysOf f
  let secs ← i64 (days * 86400)
  let hh ← i64 (f.hour * 3600)
  let secs ← i64 (secs + hh)
  let mm ← i64 (f.minute * 60)
  let secs ← i64 (secs + mm)
  let secs ← i64 (secs + f.second)
  if 0 ≤ secs then .ok secs.toNat else .error ()

def httpdateToEpoch (s : String) : Checked Unit Nat :=
  match dateFields s with
  | some f => epochOf f
  | none => .error ()

def epochToHttpdate (secs : Nat) : String :=
  let days : Int := (secs / 86400 : Nat)
  let wd := ((days.tmod 7 + 4) % 7).toNat
  let t := civilTime secs
  String.ofList ((weekdayNames.getD wd "").toList ++ ", ".toList ++ zeroPad 2 t.day ++ ' ' ::
    (monthNames.getD (t.month - 1).toNat "").toList ++ ' ' :: zeroPad 4 t.year ++ ' ' ::
    zeroPad 2 t.hour ++ ':' :: zeroPad 2 t.minute ++ ':' :: zeroPad 2 t.second ++ " GMT".toList)

/-! ## What the fields stand for -/

namespace Fields

/-- The year that starts in March, and the month in it. -/
def marchYear (f : Fields) : Int := monthNumber f.year f.month / 12
def marchMonth (f : Fields) : Int := monthNumber f.year f.month % 12

/-- The days since 1970, where a day beyond its month is one of a later month. -/
def days (f : Fields) : Int := firstDay (monthNumber f.year f.month) + f.day - 1 - 719468

def seconds (f : Fields) : Int := f.days * 86400 + f.hour * 3600 + f.minute * 60 + f.second

/-- There is such a day, and such a time; 60 seconds are those of a leap second. -/
structure InRange (f : Fields) : Prop where
  day_pos : 1 ≤ f.day
  day_le : f.day ≤ monthLength f.year f.month
  hour : 0 ≤ f.hour ∧ f.hour ≤ 23
  minute : 0 ≤ f.minute ∧ f.minute ≤ 59
  second : 0 ≤ f.second ∧ f.second ≤ 60

/-- The fields are no larger than 64 bits allow: the year for the days of its eras, the day with the
days of the era before it, and the days, hours, minutes and seconds for their sum in seconds. -/
structure Fits (f : Fields) : Prop where
  year : IsI64 (f.marchYear / 400 * 146097)
  day : IsI64 (monthStart f.marchMonth + f.day)
  dayOfYear : IsI64 (monthStart f.marchMonth + f.day - 1)
  dayOfEra : IsI64 (eraDays (f.marchYear % 400) + (monthStart f.marchMonth + f.day - 1))
  days : IsI64 (f.days * 86400)
  hour : IsI64 (f.hour * 3600)
  hours : IsI64 (f.days * 86400 + f.hour * 3600)
  minute : IsI64 (f.minute * 60)
  minutes : IsI64 (f.days * 86400 + f.hour * 3600 + f.minute * 60)
  seconds : IsI64 f.seconds

end Fields

/-! ## Arithmetic -/

variable {f : Fields} {n : Int} {α : Type}

theorem i64_bind (h : IsI64 n) (g : Int → Checked Unit α) : i64 n >>= g = g n := by
  rw [i64, if_pos h, Checked.ok_bind]

theorem i64_cases (n : Int) : i64 n = .ok n ∨ i64 n = .stuck ∧ ¬IsI64 n := by
  unfold i64
  split
  · exact .inl rfl
  · exact .inr ⟨rfl, ‹_›⟩

theorem i64_bind_ne_stuck {g : Int → Checked Unit α} (h : i64 n >>= g ≠ .stuck) :
    IsI64 n ∧ g n ≠ .stuck := by
  rcases i64_cases n with hn | ⟨hn, -⟩
  · have hfits : IsI64 n := by
      by_contra hlarge
      rw [i64, if_neg hlarge] at hn
      cases hn
    rw [hn, Checked.ok_bind] at h
    exact ⟨hfits, h⟩
  · rw [hn, Checked.stuck_bind] at h
    exact absurd rfl h

/-- The year that starts in March is the one before for January and February. -/
theorem marchYear_eq (hpos : 1 ≤ f.month) (hle : f.month ≤ 12) :
    f.marchYear = if f.month ≤ 2 then f.year - 1 else f.year := by
  unfold Fields.marchYear monthNumber
  split <;> omega

theorem monthStart_eq (hpos : 1 ≤ f.month) (hle : f.month ≤ 12) :
    ((153 * (if 2 < f.month then f.month - 3 else f.month + 9) + 2) / 5 : Nat) =
      monthStart f.marchMonth := by
  unfold monthStart Fields.marchMonth monthNumber
  split <;> omega

theorem tdiv_era (y : Int) : (if 0 ≤ y then y else y - 399).tdiv 400 = y / 400 := by
  have hsign : Int.sign 400 = 1 := rfl
  split
  · exact Int.tdiv_eq_ediv_of_nonneg ‹_›
  · rw [Int.tdiv_eq_ediv, hsign]
    split <;> omega

/-- The year is split, or its eras have too many days. -/
theorem eraOf_cases (hpos : 1 ≤ f.month) (hle : f.month ≤ 12) :
    eraOf f = .ok (f.marchYear / 400, f.marchYear % 400) ∨
      eraOf f = .stuck ∧ ¬IsI64 (f.marchYear / 400 * 146097) := by
  have hyear : yearOf f = .ok f.marchYear ∨ yearOf f = .stuck ∧ ¬IsI64 f.marchYear := by
    rw [marchYear_eq hpos hle]
    unfold yearOf
    split
    · exact i64_cases _
    · exact .inl rfl
  generalize f.marchYear = y at hyear
  have hera : eraYear y = .ok (if 0 ≤ y then y else y - 399) ∨
      eraYear y = .stuck ∧ ¬IsI64 (y - 399) := by
    unfold eraYear
    split
    · exact .inl rfl
    · exact i64_cases _
  unfold eraOf
  rcases hyear with hyear | ⟨hyear, hlarge⟩
  swap
  · rw [hyear]
    refine .inr ⟨rfl, fun h => hlarge ?_⟩
    unfold IsI64 at h ⊢
    omega
  rw [hyear, Checked.ok_bind]
  rcases hera with hera | ⟨hera, hlarge⟩
  swap
  · rw [hera]
    refine .inr ⟨rfl, fun h => hlarge ?_⟩
    unfold IsI64 at h ⊢
    omega
  rw [hera, Checked.ok_bind, tdiv_era]
  dsimp only
  rcases i64_cases (y / 400 * 400) with hstart | ⟨hstart, hlarge⟩
  swap
  · rw [hstart]
    refine .inr ⟨rfl, fun h => hlarge ?_⟩
    unfold IsI64 at h ⊢
    omega
  have hyoe : y - y / 400 * 400 = y % 400 := by omega
  have hfits : IsI64 (y % 400) := by
    unfold IsI64
    omega
  rw [hstart, Checked.ok_bind, hyoe, i64_bind hfits]
  exact .inl rfl

/-- The part of it for the days. -/
structure DaysFit (f : Fields) : Prop where
  year : IsI64 (f.marchYear / 400 * 146097)
  day : IsI64 (monthStart f.marchMonth + f.day)
  dayOfYear : IsI64 (monthStart f.marchMonth + f.day - 1)
  dayOfEra : IsI64 (eraDays (f.marchYear % 400) + (monthStart f.marchMonth + f.day - 1))
  sum : IsI64 (f.days + 719468)
  days : IsI64 f.days

theorem days_eq (f : Fields) : f.days = f.marchYear / 400 * 146097 +
    (eraDays (f.marchYear % 400) + (monthStart f.marchMonth + f.day - 1)) - 719468 := by
  unfold Fields.days firstDay yearStart eraDays Fields.marchYear Fields.marchMonth
  omega

/-- The years of an era, as they are counted. -/
theorem eraSteps {yoe : Int} (h0 : 0 ≤ yoe) (h1 : yoe < 400) (g : Int → Checked Unit α) :
    (do
      let doe ← i64 (yoe * 365)
      let doe ← i64 (doe + yoe.tdiv 4)
      let doe ← i64 (doe - yoe.tdiv 100)
      g doe) = g (eraDays yoe) := by
  have hdays : yoe * 365 + yoe / 4 - yoe / 100 = eraDays yoe := by
    unfold eraDays
    omega
  rw [i64_bind (by unfold IsI64; omega), Int.tdiv_eq_ediv_of_nonneg h0,
    Int.tdiv_eq_ediv_of_nonneg h0, i64_bind (by unfold IsI64; omega),
    i64_bind (by unfold IsI64; omega), hdays]

theorem daysOf_eq (hpos : 1 ≤ f.month) (hle : f.month ≤ 12)
    (h : eraOf f = .ok (f.marchYear / 400, f.marchYear % 400)) : daysOf f = (do
      let doy ← i64 (monthStart f.marchMonth + f.day)
      let doy ← i64 (doy - 1)
      let doe ← i64 (eraDays (f.marchYear % 400) + doy)
      let days ← i64 (f.marchYear / 400 * 146097)
      let days ← i64 (days + doe)
      i64 (days - 719468)) := by
  have hstart := monthStart_eq hpos hle
  unfold daysOf
  rw [h, Checked.ok_bind]
  dsimp only
  rw [hstart]
  simp only [eraSteps (by omega : 0 ≤ f.marchYear % 400) (by omega)]

theorem daysOf_cases (hpos : 1 ≤ f.month) (hle : f.month ≤ 12) :
    daysOf f = .ok f.days ∧ DaysFit f ∨ daysOf f = .stuck ∧ ¬DaysFit f := by
  rcases eraOf_cases hpos hle with hera | ⟨hera, hlarge⟩
  swap
  · exact .inr ⟨by rw [daysOf, hera, Checked.stuck_bind], fun h => hlarge h.year⟩
  have hsum := days_eq f
  rw [daysOf_eq hpos hle hera]
  by_cases h : DaysFit f
  · have hdays : f.marchYear / 400 * 146097 +
        (eraDays (f.marchYear % 400) + (monthStart f.marchMonth + f.day - 1)) =
          f.days + 719468 := by omega
    rw [i64_bind h.day, i64_bind h.dayOfYear, i64_bind h.dayOfEra, i64_bind h.year, hdays,
      i64_bind h.sum, Int.add_sub_cancel, i64, if_pos h.days]
    exact .inl ⟨rfl, h⟩
  · refine .inr ⟨?_, h⟩
    by_contra hne
    obtain ⟨hday, hne⟩ := i64_bind_ne_stuck hne
    obtain ⟨hdayOfYear, hne⟩ := i64_bind_ne_stuck hne
    obtain ⟨hdayOfEra, hne⟩ := i64_bind_ne_stuck hne
    obtain ⟨hyear, hne⟩ := i64_bind_ne_stuck hne
    obtain ⟨hsum', hne⟩ := i64_bind_ne_stuck hne
    have hdays : f.marchYear / 400 * 146097 +
        (eraDays (f.marchYear % 400) + (monthStart f.marchMonth + f.day - 1)) =
          f.days + 719468 := by omega
    rw [hdays] at hsum' hne
    rw [Int.add_sub_cancel] at hne
    refine h ⟨hyear, hday, hdayOfYear, hdayOfEra, hsum', ?_⟩
    by_contra hlarge
    exact hne (if_neg hlarge)

/-- The seconds are computed if the fields fit, and there is an overflow if they do not. -/
theorem epochOf_eq (hpos : 1 ≤ f.month) (hle : f.month ≤ 12) :
    f.Fits ∧ epochOf f = (if 0 ≤ f.seconds then .ok f.seconds.toNat else .error ()) ∨
      ¬f.Fits ∧ epochOf f = .stuck := by
  have hpart (h : f.Fits) : DaysFit f := by
    have hdays := h.days
    refine ⟨h.year, h.day, h.dayOfYear, h.dayOfEra, ?_, ?_⟩ <;>
      (unfold IsI64 at hdays ⊢; omega)
  rcases daysOf_cases hpos hle with ⟨hdays, hfit⟩ | ⟨hdays, hlarge⟩
  swap
  · exact .inr ⟨fun h => hlarge (hpart h), by rw [epochOf, hdays, Checked.stuck_bind]⟩
  unfold epochOf
  rw [hdays, Checked.ok_bind]
  by_cases h : f.Fits
  · have hseconds : IsI64 (f.days * 86400 + f.hour * 3600 + f.minute * 60 + f.second) := h.seconds
    rw [i64_bind h.days, i64_bind h.hour, i64_bind h.hours, i64_bind h.minute, i64_bind h.minutes,
      i64_bind hseconds]
    exact .inl ⟨h, rfl⟩
  · refine .inr ⟨h, ?_⟩
    by_contra hne
    obtain ⟨hseconds, hne⟩ := i64_bind_ne_stuck hne
    obtain ⟨hhour, hne⟩ := i64_bind_ne_stuck hne
    obtain ⟨hhours, hne⟩ := i64_bind_ne_stuck hne
    obtain ⟨hminute, hne⟩ := i64_bind_ne_stuck hne
    obtain ⟨hminutes, hne⟩ := i64_bind_ne_stuck hne
    obtain ⟨hsecond, -⟩ := i64_bind_ne_stuck hne
    exact h ⟨hfit.year, hfit.day, hfit.dayOfYear, hfit.dayOfEra, hseconds, hhour, hhours, hminute,
      hminutes, hsecond⟩

/-! ## Strings -/

theorem month_of_dateFields {s : String} (h : dateFields s = some f) :
    1 ≤ f.month ∧ f.month ≤ 12 := by
  unfold dateFields at h
  split at h
  · obtain ⟨_, _, h⟩ := Option.bind_eq_some_iff.mp h
    obtain ⟨mon, hmon, h⟩ := Option.bind_eq_some_iff.mp h
    obtain ⟨_, _, h⟩ := Option.bind_eq_some_iff.mp h
    obtain ⟨_, _, h⟩ := Option.bind_eq_some_iff.mp h
    cases h
    obtain ⟨hlt, -⟩ := List.idxOf?_eq_some_iff.mp hmon
    exact ⟨Nat.le_add_left 1 mon, hlt⟩
  · cases h

/-- What the conversion of a string is to be: no overflow, and a result for fields in range only. -/
def Safe (s : String) : Prop :=
  httpdateToEpoch s ≠ .stuck ∧
    ∀ n, httpdateToEpoch s = .ok n → ∃ f, dateFields s = some f ∧ f.InRange

theorem safe_iff (s : String) :
    Safe s ↔ ∀ f, dateFields s = some f → f.Fits ∧ (f.InRange ∨ f.seconds < 0) := by
  unfold Safe httpdateToEpoch
  cases hf : dateFields s with
  | none => exact iff_of_true ⟨nofun, nofun⟩ nofun
  | some f =>
    obtain ⟨hpos, hle⟩ := month_of_dateFields hf
    have hiff : (∀ f', some f = some f' → f'.Fits ∧ (f'.InRange ∨ f'.seconds < 0)) ↔
        f.Fits ∧ (f.InRange ∨ f.seconds < 0) := by
      simp
    rw [hiff]
    dsimp only
    rcases epochOf_eq hpos hle with ⟨hfits, heq⟩ | ⟨hlarge, heq⟩
    · rw [heq, and_iff_right hfits]
      split
      · rename_i hnonneg
        constructor
        · rintro ⟨-, h⟩
          obtain ⟨f', hf', hrange⟩ := h _ rfl
          cases hf'
          exact .inl hrange
        · rintro (hrange | hneg)
          · exact ⟨nofun, fun n _ => ⟨f, rfl, hrange⟩⟩
          · omega
      · exact iff_of_true ⟨nofun, nofun⟩ (.inr (by omega))
    · rw [heq]
      exact iff_of_false (fun h => h.1 rfl) fun h => hlarge h.1

/-! ## Written dates -/

theorem isDigit_of_mem_zeroPad {width n : Nat} {c : Char} (h : c ∈ zeroPad width n) :
    c.isDigit = true := by
  unfold zeroPad at h
  rw [if_neg (by omega), Int.natAbs_natCast, List.mem_append] at h
  rcases h with h | h
  · rw [List.eq_of_mem_replicate h]
    decide
  · exact Nat.isDigit_of_mem_toDigits (by decide) (by decide) h

theorem zeroPad_ne_nil (width n : Nat) : zeroPad width n ≠ [] := by
  unfold zeroPad
  rw [if_neg (by omega)]
  exact List.append_ne_nil_of_right_ne_nil _ Nat.toDigits_ne_nil

theorem parseI64_zeroPad (width : Nat) {n : Nat} (h : n < 2 ^ 63) :
    parseI64 (String.ofList (zeroPad width n)) = some (n : Int) := by
  have hdigits (c : Char) (hc : c ∈ zeroPad width n) : c.isDigit = true := isDigit_of_mem_zeroPad hc
  unfold parseI64
  split
  · rename_i digits heq
    rw [asBytes_digits hdigits] at heq
    obtain ⟨c, hc, hb⟩ := List.mem_map.mp (heq ▸ List.mem_cons_self)
    have hdigit := isAsciiDigit_of_isDigit (hdigits c hc)
    rw [hb] at hdigit
    exact absurd hdigit (by decide)
  · rw [parseUnsigned_digits hdigits (zeroPad_ne_nil width n), Sigv4.ofDigitChars_zeroPad,
      if_pos (by omega)]
    rfl

/-- A word in front of a space. -/
theorem splitWhitespace_word {word : List Char} (hne : word ≠ [])
    (h : ∀ c ∈ word, isWhitespace c = false) (rest : List Char) :
    splitWhitespace (String.ofList (word ++ ' ' :: rest)) =
      String.ofList word :: splitWhitespace (String.ofList rest) := by
  unfold splitWhitespace
  rw [String.toList_ofList, String.toList_ofList,
    List.splitOnP_append_cons_of_forall_mem h ' ' (by decide),
    List.filter_cons_of_pos (by simpa using hne), List.map_cons]

theorem isWhitespace_of_isDigit {c : Char} (h : c.isDigit = true) : isWhitespace c = false := by
  obtain ⟨h0, h9⟩ := isDigit_bounds h
  unfold isWhitespace
  simp
  omega

theorem isWhitespace_of_isAlpha {c : Char} (h : c.isAlpha = true) : isWhitespace c = false := by
  have hbounds : 65 ≤ c.toNat ∧ c.toNat ≤ 90 ∨ 97 ≤ c.toNat ∧ c.toNat ≤ 122 := by
    simpa [Char.isAlpha, Char.isUpper, Char.isLower, UInt32.le_iff_toNat_le] using h
  unfold isWhitespace
  simp
  omega

theorem weekdayNames_cut : ∀ name ∈ weekdayNames, ∀ rest, splitOnceAt ", ".toList
    (name.toList ++ ", ".toList ++ rest) = some (name.toList, rest) := by
  intro name hname rest
  simp only [weekdayNames, List.mem_cons, List.not_mem_nil, or_false] at hname
  rcases hname with rfl | rfl | rfl | rfl | rfl | rfl | rfl <;> rfl

theorem timeFields_written {hh mm ss : Nat} (hhour : hh < 2 ^ 63) (hminute : mm < 2 ^ 63)
    (hsecond : ss < 2 ^ 63) : timeFields (String.ofList (zeroPad 2 hh ++ ':' :: zeroPad 2 mm ++
      ':' :: zeroPad 2 ss)) = some ((hh : Int), (mm : Int), (ss : Int)) := by
  have hcolon (n : Nat) : ':' ∉ zeroPad 2 n := fun h =>
    absurd (isDigit_of_mem_zeroPad h) (by decide)
  have hsplit : split ':' (String.ofList (zeroPad 2 hh ++ ':' :: zeroPad 2 mm ++
      ':' :: zeroPad 2 ss)) = [String.ofList (zeroPad 2 hh), String.ofList (zeroPad 2 mm),
        String.ofList (zeroPad 2 ss)] := by
    rw [split, String.toList_ofList, List.append_assoc, List.cons_append,
      List.splitOn_append_cons_self_of_not_mem (hcolon hh),
      List.splitOn_append_cons_self_of_not_mem (hcolon mm), List.splitOn_eq_singleton (hcolon ss)]
    rfl
  unfold timeFields
  rw [hsplit]
  dsimp only
  rw [parseI64_zeroPad 2 hhour, parseI64_zeroPad 2 hminute, parseI64_zeroPad 2 hsecond]
  rfl

/-- A date that is written, by its fields. -/
def written (weekday : String) (day month year hour minute second : Nat) : List Char :=
  weekday.toList ++ ", ".toList ++ (zeroPad 2 day ++ ' ' ::
    ((monthNames.getD (month - 1) "").toList ++ ' ' :: (zeroPad 4 year ++ ' ' ::
      ((zeroPad 2 hour ++ ':' :: zeroPad 2 minute ++ ':' :: zeroPad 2 second) ++ ' ' ::
        "GMT".toList))))

theorem epochToHttpdate_eq {secs : Nat} {date : Date} {year : Nat} (hyear : date.year = year)
    (h : date.number = (secs / 86400 : Nat) + 719468) :
    epochToHttpdate secs = String.ofList (written (weekdayNames.getD date.weekday "") date.day
      date.month year (secs % 86400 / 3600) (secs % 86400 % 3600 / 60) (secs % 86400 % 60)) := by
  have hpos := date.month_pos
  have hmonth : ((date.month : Int) - 1).toNat = date.month - 1 := by omega
  have hweekday : ((((secs / 86400 : Nat) : Int).tmod 7 + 4) % 7).toNat = date.weekday := by
    rw [Int.tmod_eq_emod_of_nonneg (by omega), Date.weekday, h]
    omega
  unfold epochToHttpdate written
  rw [Sigv4.civilTime_eq h]
  dsimp only
  rw [hmonth, hweekday, hyear]
  simp only [List.append_assoc, List.cons_append]
  rfl

/-- Nothing is trimmed between two characters that are no white space. -/
theorem trim_of_ends {s : List Char} {c d : Char} (hc : isWhitespace c = false)
    (hd : isWhitespace d = false) (hhead : s.head? = some c) (hlast : s.getLast? = some d) :
    trim (String.ofList s) = String.ofList s := by
  obtain ⟨rest, hrest⟩ := List.head?_eq_some_iff.mp hhead
  obtain ⟨front, hfront⟩ := List.getLast?_eq_some_iff.mp hlast
  have hstart : s.dropWhile isWhitespace = s := by
    rw [hrest, List.dropWhile_cons_of_neg (by simp [hc])]
  have hend : s.reverse.dropWhile isWhitespace = s.reverse := by
    rw [hfront, List.reverse_append, List.reverse_singleton, List.singleton_append,
      List.dropWhile_cons_of_neg (by simp [hd])]
  rw [trim, String.toList_ofList, hstart, hend, List.reverse_reverse]

theorem weekdayNames_head : ∀ name ∈ weekdayNames, ∃ c, name.toList.head? = some c ∧
    isWhitespace c = false := by
  intro name hname
  simp only [weekdayNames, List.mem_cons, List.not_mem_nil, or_false] at hname
  rcases hname with rfl | rfl | rfl | rfl | rfl | rfl | rfl <;> exact ⟨_, rfl, by decide⟩

theorem monthNames_alpha :
    ∀ name ∈ monthNames, name.toList ≠ [] ∧ name.toList.all Char.isAlpha = true := by
  decide

/-- The words of a date are those behind the comma. -/
theorem dateTokens_of_cut {s before rest : List Char}
    (htrim : trim (String.ofList s) = String.ofList s)
    (hcut : splitOnceAt ", ".toList s = some (before, rest)) :
    dateTokens (String.ofList s) = splitWhitespace (String.ofList rest) := by
  unfold dateTokens
  rw [htrim]
  dsimp only
  rw [String.toList_ofList (l := s)]
  rw [hcut]

theorem dateTokens_written {weekday : String} (hweekday : weekday ∈ weekdayNames)
    {day month year hour minute second : Nat} (hpos : 1 ≤ month) (hle : month ≤ 12) :
    dateTokens (String.ofList (written weekday day month year hour minute second)) =
      [String.ofList (zeroPad 2 day), monthNames.getD (month - 1) "",
        String.ofList (zeroPad 4 year), String.ofList (zeroPad 2 hour ++ ':' :: zeroPad 2 minute ++
          ':' :: zeroPad 2 second), "GMT"] := by
  obtain ⟨c, hc, hspace⟩ := weekdayNames_head weekday hweekday
  have hmonthMem : monthNames.getD (month - 1) "" ∈ monthNames := by
    have hlt : month - 1 < monthNames.length := by
      show month - 1 < 12
      omega
    rw [List.getD_eq_getElem _ _ hlt]
    exact List.getElem_mem hlt
  obtain ⟨hmonth, halpha⟩ := monthNames_alpha _ hmonthMem
  have hmonthSpace : ∀ c ∈ (monthNames.getD (month - 1) "").toList, isWhitespace c = false :=
    fun c hc => isWhitespace_of_isAlpha (List.all_eq_true.mp halpha c hc)
  have hnumber (width n : Nat) : ∀ c ∈ zeroPad width n, isWhitespace c = false :=
    fun c hc => isWhitespace_of_isDigit (isDigit_of_mem_zeroPad hc)
  have htime : ∀ c ∈ zeroPad 2 hour ++ ':' :: zeroPad 2 minute ++ ':' :: zeroPad 2 second,
      isWhitespace c = false := by
    intro c hc
    simp only [List.mem_append, List.mem_cons] at hc
    rcases hc with (hc | rfl | hc) | rfl | hc
    · exact hnumber _ _ c hc
    · decide
    · exact hnumber _ _ c hc
    · decide
    · exact hnumber _ _ c hc
  have hhead : (written weekday day month year hour minute second).head? = some c := by
    simp [written, List.head?_append, hc]
  have hlast : (written weekday day month year hour minute second).getLast? = some 'T' := by
    simp [written, List.getLast?_append, List.getLast?_cons]
  rw [dateTokens_of_cut (trim_of_ends hspace (by decide) hhead hlast)
      (weekdayNames_cut weekday hweekday _),
    splitWhitespace_word (zeroPad_ne_nil _ _) (hnumber _ _),
    splitWhitespace_word hmonth hmonthSpace,
    splitWhitespace_word (zeroPad_ne_nil _ _) (hnumber _ _), splitWhitespace_word (by simp) htime,
    String.ofList_toList, String.ofList_toList]
  rfl

/-- The fields that are written are read. -/
theorem dateFields_written {weekday : String} (hweekday : weekday ∈ weekdayNames)
    {day month year hour minute second : Nat} (hpos : 1 ≤ month) (hle : month ≤ 12)
    (hday : day < 2 ^ 63) (hyear : year < 2 ^ 63) (hhour : hour < 2 ^ 63)
    (hminute : minute < 2 ^ 63) (hsecond : second < 2 ^ 63) :
    dateFields (String.ofList (written weekday day month year hour minute second)) =
      some ⟨day, month, year, hour, minute, second⟩ := by
  have hmonth : monthNames.idxOf? (monthNames.getD (month - 1) "") = some (month - 1) := by
    have hall : ∀ m < 12, monthNames.idxOf? (monthNames.getD m "") = some m := by decide
    exact hall _ (by omega)
  unfold dateFields
  rw [dateTokens_written hweekday hpos hle]
  dsimp only
  rw [parseI64_zeroPad 2 hday, hmonth, parseI64_zeroPad 4 hyear,
    timeFields_written hhour hminute hsecond]
  dsimp only [bind, Option.bind, pure]
  rw [Nat.sub_add_cancel hpos]

/-! ## There and back -/

/-- The fields of a date in the range of the seconds fit. -/
theorem fits_of_date {date : Date} {hour minute second : Nat}
    (hnumber : 719468 ≤ date.number) (hle : date.number ≤ 719468 + 106751991167300)
    (hhour : hour ≤ 23) (hminute : minute ≤ 59) (hsecond : second ≤ 59)
    (hseconds : (date.number - 719468) * 86400 + hour * 3600 + minute * 60 + second < 2 ^ 63) :
    Fields.Fits ⟨date.day, date.month, date.year, hour, minute, second⟩ := by
  have hdays : Fields.days ⟨date.day, date.month, date.year, hour, minute, second⟩ =
      date.number - 719468 := rfl
  have hera := date.number_eq
  obtain ⟨hlow, hhigh⟩ := date.dayOfEra_bounds
  have hday := date.day_le
  have hlen := monthLength_le date.year date.month
  have hmonth : 0 ≤ date.marchMonth ∧ date.marchMonth < 12 := by
    unfold Date.marchMonth
    omega
  have hstart : 0 ≤ monthStart date.marchMonth ∧ monthStart date.marchMonth ≤ 337 := by
    unfold monthStart
    omega
  have hmarch : 0 ≤ date.marchYear / 400 := by omega
  have hdoe : eraDays (date.marchYear % 400) + (monthStart date.marchMonth + date.day - 1) =
      eraDays (date.marchYear % 400) + date.dayOfYear := rfl
  constructor
  · show IsI64 (date.marchYear / 400 * 146097)
    unfold IsI64
    omega
  · show IsI64 (monthStart date.marchMonth + date.day)
    unfold IsI64
    omega
  · show IsI64 (monthStart date.marchMonth + date.day - 1)
    unfold IsI64
    omega
  · show IsI64 (eraDays (date.marchYear % 400) + (monthStart date.marchMonth + date.day - 1))
    unfold IsI64
    omega
  · rw [hdays]
    unfold IsI64
    omega
  · show IsI64 ((hour : Int) * 3600)
    unfold IsI64
    omega
  · rw [hdays]
    unfold IsI64
    dsimp only
    omega
  · show IsI64 ((minute : Int) * 60)
    unfold IsI64
    omega
  · rw [hdays]
    unfold IsI64
    dsimp only
    omega
  · rw [Fields.seconds, hdays]
    unfold IsI64
    dsimp only
    omega

/-- The year of a day from 1970 on is a number of 64 bits, as long as the day is. -/
theorem year_of_number {date : Date} (hnumber : 719468 ≤ date.number)
    (hle : date.number ≤ 719468 + 106751991167300) :
    ∃ year : Nat, date.year = year ∧ year < 2 ^ 63 := by
  have hera := date.number_eq
  obtain ⟨hlow, hhigh⟩ := date.dayOfEra_bounds
  have hpos := date.month_pos
  have hmonth := date.month_le
  have hmarch : 0 ≤ date.marchYear ∧ date.marchYear < 2 ^ 60 := by omega
  have hbounds : 0 ≤ date.year ∧ date.year < 2 ^ 63 := by
    unfold Date.marchYear monthNumber at hmarch
    omega
  obtain ⟨year, hyear⟩ := Int.eq_ofNat_of_zero_le hbounds.1
  exact ⟨year, hyear, by omega⟩

/-- A date that is written reads back, and it has its weekday. -/
theorem httpdateToEpoch_epochToHttpdate {secs : Nat} (h : secs < 2 ^ 63) :
    httpdateToEpoch (epochToHttpdate secs) = .ok secs ∧
      ∃ date : Date, date.number = (secs / 86400 : Nat) + 719468 ∧ ∃ rest,
        (epochToHttpdate secs).toList = (weekdayNames.getD date.weekday "").toList ++ rest := by
  have hfirst : Sigv4.epochDate.number = 719468 := by decide
  have hafter : Sigv4.epochDate.number ≤ ((secs / 86400 : Nat) : Int) + 719468 := by omega
  obtain ⟨date, hdate⟩ := Date.exists_number Sigv4.epochDate hafter
  have hnumber : 719468 ≤ date.number := by omega
  have hle : date.number ≤ 719468 + 106751991167300 := by omega
  obtain ⟨year, hyear, hyearLt⟩ := year_of_number hnumber hle
  have hday := date.day_le
  have hlen := monthLength_le date.year date.month
  have hweekday : weekdayNames.getD date.weekday "" ∈ weekdayNames := by
    have hlt : date.weekday < weekdayNames.length := by
      unfold Date.weekday
      show _ < 7
      omega
    rw [List.getD_eq_getElem _ _ hlt]
    exact List.getElem_mem hlt
  have hwritten := epochToHttpdate_eq hyear hdate
  have hfields := dateFields_written hweekday date.month_pos date.month_le
    (by omega : date.day < 2 ^ 63) hyearLt (by omega : secs % 86400 / 3600 < 2 ^ 63)
    (by omega : secs % 86400 % 3600 / 60 < 2 ^ 63) (by omega : secs % 86400 % 60 < 2 ^ 63)
  constructor
  · have hfits : Fields.Fits ⟨date.day, date.month, date.year, (secs % 86400 / 3600 : Nat),
        (secs % 86400 % 3600 / 60 : Nat), (secs % 86400 % 60 : Nat)⟩ :=
      fits_of_date hnumber hle (by omega) (by omega) (by omega) (by omega)
    have hseconds : Fields.seconds ⟨date.day, date.month, date.year, (secs % 86400 / 3600 : Nat),
        (secs % 86400 % 3600 / 60 : Nat), (secs % 86400 % 60 : Nat)⟩ = secs := by
      have hdays : Fields.days ⟨date.day, date.month, date.year, (secs % 86400 / 3600 : Nat),
        (secs % 86400 % 3600 / 60 : Nat), (secs % 86400 % 60 : Nat)⟩ = date.number - 719468 := rfl
      rw [Fields.seconds, hdays, hdate]
      dsimp only
      omega
    unfold httpdateToEpoch
    rw [hwritten, hfields]
    dsimp only
    rw [← hyear]
    rcases epochOf_eq (f := ⟨date.day, date.month, date.year, (secs % 86400 / 3600 : Nat),
        (secs % 86400 % 3600 / 60 : Nat), (secs % 86400 % 60 : Nat)⟩) date.month_pos date.month_le
      with ⟨-, heq⟩ | ⟨hlarge, -⟩
    · rw [heq, hseconds, if_pos (Int.natCast_nonneg secs), Int.toNat_natCast]
    · exact absurd hfits hlarge
  · refine ⟨date, hdate, ?_⟩
    rw [hwritten, String.toList_ofList, written, List.append_assoc]
    exact ⟨_, rfl⟩

/-- Times are written so that they read back, with their weekday. The reading of a string is safe
exactly if its fields fit, and are in range or stand for a time before 1970. -/
theorem httpdate_exact (secs : Nat) (s : String) :
    (secs < 2 ^ 63 → httpdateToEpoch (epochToHttpdate secs) = .ok secs ∧
      ∃ date : Date, date.number = (secs / 86400 : Nat) + 719468 ∧ ∃ rest,
        (epochToHttpdate secs).toList = (weekdayNames.getD date.weekday "").toList ++ rest) ∧
    (Safe s ↔ ∀ f, dateFields s = some f → f.Fits ∧ (f.InRange ∨ f.seconds < 0)) :=
  ⟨fun h => httpdateToEpoch_epochToHttpdate h, safe_iff s⟩

/-- A day beyond its month with a time beyond its day, and a year with too many days. -/
theorem not_safe_odd : ¬Safe "Fri, 99 Jan 2000 25:61:61 GMT" ∧
    ¬Safe "Sun, 06 Nov 9223372036854775807 08:49:37 GMT" := by
  have hday : dateFields "Fri, 99 Jan 2000 25:61:61 GMT" = some ⟨99, 1, 2000, 25, 61, 61⟩ := by
    decide +kernel
  have hyear : dateFields "Sun, 06 Nov 9223372036854775807 08:49:37 GMT" =
      some ⟨6, 11, 9223372036854775807, 8, 49, 37⟩ := by
    decide +kernel
  constructor
  · intro h
    obtain ⟨-, hrange | hneg⟩ := (safe_iff _).mp h _ hday
    · exact absurd hrange.hour.2 (by decide)
    · exact absurd hneg (by decide)
  · intro h
    exact absurd ((safe_iff _).mp h _ hyear).1.year (by decide)

end Rsurl.Cli
