import Rsurl.Cookie.Jar
import Rsurl.Library.Calendar

/-!
# Times

A request is signed with its time written out, and a cookie passes at a time that is read. The two
conversions are inverse to each other, and the one that reads keeps the order of the times.
-/

namespace Rsurl.Sigv4

open Library Library.Calendar
open Cookies (epochFromYmdHms)

/-- A UTC time by its fields. -/
structure CivilTime where
  year : Int
  month : Int
  day : Int
  hour : Int
  minute : Int
  second : Int
  deriving DecidableEq

/-- The fields of a second since the epoch. The divisions are those of `i64`. -/
def civilTime (secs : Nat) : CivilTime :=
  let days : Int := (secs / 86400 : Nat)
  let rem : Int := (secs % 86400 : Nat)
  let z := days + 719468
  let era := (if 0 ≤ z then z else z - 146096).tdiv 146097
  let doe := z - era * 146097
  let yoe := (doe - doe.tdiv 1460 + doe.tdiv 36524 - doe.tdiv 146096).tdiv 365
  let y := yoe + era * 400
  let doy := doe - (365 * yoe + yoe.tdiv 4 - yoe.tdiv 100)
  let mp := (5 * doy + 2).tdiv 153
  let d := doy - (153 * mp + 2).tdiv 5 + 1
  let m := if mp < 10 then mp + 3 else mp - 9
  ⟨if m ≤ 2 then y + 1 else y, m, d, rem.tdiv 3600, (rem.tmod 3600).tdiv 60, rem.tmod 60⟩

/-- A decimal number with zeros in front of it, as `format!` writes it. -/
def zeroPad (width : Nat) (n : Int) : List Char :=
  let digits := Nat.toDigits 10 n.natAbs
  if n < 0 then '-' :: List.replicate (width - 1 - digits.length) '0' ++ digits
  else List.replicate (width - digits.length) '0' ++ digits

def epochToAmzdate (secs : Nat) : String :=
  let t := civilTime secs
  String.ofList (zeroPad 4 t.year ++ zeroPad 2 t.month ++ zeroPad 2 t.day ++ ['T'] ++
    zeroPad 2 t.hour ++ zeroPad 2 t.minute ++ zeroPad 2 t.second ++ ['Z'])

/-- The number in a field of a timestamp. -/
def field (stamp : String) (start width : Nat) : Nat :=
  Nat.ofDigitChars 10 ((stamp.toList.drop start).take width) 0

/-- The second of a timestamp that is split into its fields. -/
def epochOfAmzdate (stamp : String) : Option Nat :=
  epochFromYmdHms (field stamp 0 4) (field stamp 4 2) (field stamp 6 2) (field stamp 9 2)
    (field stamp 11 2) (field stamp 13 2)

/-! ## The seconds of a date -/

theorem monthDays_eq (year : Int) (month : Nat) :
    Cookies.monthDays year month = monthLength year month := by
  have hleap : Cookies.isLeap year = true ↔ IsLeap year := by
    simp [Cookies.isLeap, IsLeap]
  by_cases hfeb : month = 2
  · subst hfeb
    change (if Cookies.isLeap year = true then 29 else 28) = if IsLeap year then 29 else 28
    simp only [hleap]
  · unfold Cookies.monthDays monthLength
    split <;> simp_all

theorem epochFromYmdHms_past_month {y : Int} {m d : Nat} (h : monthLength y m < d)
    (hh mm ss : Nat) : epochFromYmdHms y m d hh mm ss = none := by
  unfold epochFromYmdHms
  rw [monthDays_eq, if_pos h]
  split <;> rfl

/-- A date from 1970 on is converted by the day it is. -/
theorem epochFromYmdHms_eq {date : Date} (h : 1970 ≤ date.year) {hh mm ss : Nat} (hhour : hh ≤ 23)
    (hminute : mm ≤ 59) (hsecond : ss ≤ 60) :
    719468 ≤ date.number ∧ epochFromYmdHms date.year date.month date.day hh mm ss =
      some ((date.number - 719468).toNat * 86400 + hh * 3600 + mm * 60 + ss) := by
  have hpos := date.month_pos
  have hle := date.month_le
  have hday := date.day_pos
  have hlen := date.day_le
  have hmax := monthLength_le date.year date.month
  have hyear : (if date.month ≤ 2 then date.year - 1 else date.year) = date.marchYear := by
    unfold Date.marchYear monthNumber
    split <;> omega
  have hmonth : ((if 2 < date.month then date.month - 3 else date.month + 9 : Nat) : Int) =
      date.marchMonth := by
    unfold Date.marchMonth monthNumber
    split <;> omega
  have hmarch : 1969 ≤ date.marchYear := by
    unfold Date.marchYear monthNumber
    omega
  have hnumber : 719468 ≤ date.number := by
    have hfirst : firstDay (monthNumber 1970 1) ≤ firstDay (monthNumber date.year date.month) :=
      firstDay_strictMono.monotone (by unfold monthNumber; omega)
    have hepoch : firstDay (monthNumber 1970 1) = 719468 := by decide
    unfold Date.number
    omega
  have hfields : ¬(date.month < 1 || 12 < date.month || date.day < 1 || 31 < date.day ||
      23 < hh || 59 < mm || 60 < ss) = true := by
    simp only [Bool.or_eq_true, decide_eq_true_eq]
    omega
  have hera : (if 0 ≤ date.marchYear then date.marchYear else date.marchYear - 399).tdiv 400 =
      date.marchYear / 400 := by
    rw [if_pos (by omega), Int.tdiv_eq_ediv_of_nonneg (by omega)]
  have hyoe : date.marchYear - date.marchYear / 400 * 400 = date.marchYear % 400 := by omega
  have hdoy : (((153 * (if 2 < date.month then date.month - 3 else date.month + 9) + 2) / 5 +
      date.day - 1 : Nat) : Int) = date.dayOfYear := by
    unfold Date.dayOfYear monthStart
    rw [← hmonth]
    omega
  refine ⟨hnumber, ?_⟩
  unfold epochFromYmdHms
  rw [if_neg hfields, monthDays_eq, if_neg (by omega)]
  simp only [hyear, hera, hyoe, hdoy]
  have hdays : date.marchYear / 400 * 146097 + (date.marchYear % 400 * 365 +
      date.marchYear % 400 / 4 - date.marchYear % 400 / 100 + date.dayOfYear) - 719468 =
        date.number - 719468 := by
    rw [date.number_eq]
    unfold eraDays
    omega
  rw [hdays, if_neg (by omega)]

/-! ## The date of a second -/

/-- The divisions find the date of the day. -/
theorem civilTime_eq {secs : Nat} {date : Date}
    (h : date.number = (secs / 86400 : Nat) + 719468) :
    civilTime secs = ⟨date.year, date.month, date.day, (secs % 86400 / 3600 : Nat),
      (secs % 86400 % 3600 / 60 : Nat), (secs % 86400 % 60 : Nat)⟩ := by
  have hpos := date.month_pos
  have hle := date.month_le
  have hnumber := date.number_eq
  obtain ⟨hera0, hera1⟩ := date.dayOfEra_bounds
  obtain ⟨hdoy0, hdoy1⟩ := date.dayOfYear_bounds
  have hyoe0 : 0 ≤ date.marchYear % 400 := by omega
  have hyoe1 : date.marchYear % 400 < 400 := by omega
  have hmonth : 0 ≤ date.marchMonth ∧ date.marchMonth < 12 := by
    unfold Date.marchMonth
    omega
  unfold civilTime
  extract_lets days rem z era doe yoe y doy mp d m
  have hrem : rem = (secs % 86400 : Nat) := rfl
  have hz : z = date.number := h.symm
  clear_value rem z
  have hera : era = date.marchYear / 400 := by
    have hnonneg : 0 ≤ z := by omega
    unfold era
    rw [if_pos hnonneg, Int.tdiv_eq_ediv_of_nonneg hnonneg]
    omega
  clear_value era
  have hdoe : doe = eraDays (date.marchYear % 400) + date.dayOfYear := by
    unfold doe
    omega
  clear_value doe
  have hyoe : yoe = date.marchYear % 400 := by
    have hnonneg : 0 ≤ doe := by omega
    have hcount : 0 ≤ doe - doe / 1460 + doe / 36524 - doe / 146096 := by omega
    unfold yoe
    simp only [Int.tdiv_eq_ediv_of_nonneg hnonneg]
    rw [Int.tdiv_eq_ediv_of_nonneg hcount, hdoe]
    exact yearOfEra_eq hyoe0 hyoe1 hdoy0 hdoy1
  have hy : y = date.marchYear := by
    unfold y
    omega
  clear_value yoe y
  have hdoy : doy = date.dayOfYear := by
    have hnonneg : 0 ≤ yoe := by omega
    unfold doy
    simp only [Int.tdiv_eq_ediv_of_nonneg hnonneg]
    rw [hdoe, hyoe]
    unfold eraDays
    omega
  clear_value doy
  have hday : date.dayOfYear = monthStart date.marchMonth + (date.day - 1 : Int) := by
    unfold Date.dayOfYear
    omega
  have hmp : mp = date.marchMonth := by
    have hlt := date.dayOfYear_lt
    have hfirst := date.day_pos
    have hnonneg : 0 ≤ 5 * doy + 2 := by omega
    unfold mp
    rw [Int.tdiv_eq_ediv_of_nonneg hnonneg, hdoy, hday]
    exact month_eq (by omega) (by omega)
  clear_value mp
  have hd : d = date.day := by
    have hnonneg : 0 ≤ 153 * mp + 2 := by omega
    unfold d
    rw [Int.tdiv_eq_ediv_of_nonneg hnonneg, hdoy, hmp, hday]
    unfold monthStart
    omega
  have hm : m = date.month := by
    unfold m
    rw [hmp]
    unfold Date.marchMonth monthNumber
    split <;> omega
  clear_value d m
  have hyear : (if m ≤ 2 then y + 1 else y) = date.year := by
    rw [hm, hy]
    unfold Date.marchYear monthNumber
    split <;> omega
  rw [hyear, hm, hd, hrem]
  simp only [Int.ofNat_tdiv, Int.ofNat_tmod, CivilTime.mk.injEq, true_and]
  norm_cast

def epochDate : Date := ⟨1970, 1, 1, by decide, by decide, by decide, by decide⟩
def lastDate : Date := ⟨9999, 12, 31, by decide, by decide, by decide, by decide⟩

/-- Every second up to the year 9999 has a date, and it needs no more than four digits. -/
theorem exists_date {secs : Nat} (h : secs < 253402300800) :
    ∃ date : Date, date.number = (secs / 86400 : Nat) + 719468 ∧ 1970 ≤ date.year ∧
      date.year ≤ 9999 := by
  have hfirst : epochDate.number = 719468 := by decide
  have hlast : lastDate.number = 3652364 := by decide
  obtain ⟨date, hdate⟩ := Date.exists_number epochDate
    (n := (secs / 86400 : Nat) + 719468) (by omega)
  refine ⟨date, hdate, ?_, ?_⟩
  · by_contra hyear
    have hlt : date.number < epochDate.number := Date.number_lt (.inl (show date.year < 1970 from not_le.mp hyear))
    omega
  · by_contra hyear
    have hlt : lastDate.number < date.number := Date.number_lt (.inl (show 9999 < date.year from not_le.mp hyear))
    omega

/-! ## Timestamps -/

theorem length_zeroPad {width n : Nat} (hwidth : 0 < width) (h : n < 10 ^ width) :
    (zeroPad width n).length = width := by
  have hdigits := (Nat.length_toDigits_le_iff (by decide) hwidth).mpr h
  simp only [zeroPad, Int.natAbs_natCast, List.length_append, List.length_replicate,
    if_neg (show ¬(n : Int) < 0 by omega)]
  omega

theorem ofDigitChars_zeroPad (width n : Nat) : Nat.ofDigitChars 10 (zeroPad width n) 0 = n := by
  simp only [zeroPad, Int.natAbs_natCast, if_neg (show ¬(n : Int) < 0 by omega)]
  rw [Nat.ofDigitChars_append, Nat.ofDigitChars_replicate_zero, Nat.mul_zero,
    Nat.ofDigitChars_ten_toDigits]

/-- A field is what stands at its place. -/
theorem field_eq {stamp : String} {back : List Char} {start width n : Nat} (hwidth : 0 < width)
    (hn : n < 10 ^ width) (h : stamp.toList.drop start = zeroPad width n ++ back) :
    field stamp start width = n ∧ stamp.toList.drop (start + width) = back := by
  have hlen := length_zeroPad hwidth hn
  have htake : (zeroPad width n ++ back).take width = zeroPad width n := by
    nth_rewrite 1 [← hlen]
    exact List.take_left
  have hdrop : (zeroPad width n ++ back).drop width = back := by
    nth_rewrite 1 [← hlen]
    exact List.drop_left
  exact ⟨by rw [field, h, htake, ofDigitChars_zeroPad], by rw [← List.drop_drop, h, hdrop]⟩

/-- A timestamp is read by its fields. -/
theorem epochOfAmzdate_eq {stamp : String} {y m d hh mm ss : Nat} (hy : y < 10000) (hm : m < 100)
    (hd : d < 100) (hhour : hh < 100) (hminute : mm < 100) (hsecond : ss < 100)
    (h : stamp.toList = zeroPad 4 y ++ (zeroPad 2 m ++ (zeroPad 2 d ++ ('T' :: (zeroPad 2 hh ++
      (zeroPad 2 mm ++ (zeroPad 2 ss ++ ['Z']))))))) :
    epochOfAmzdate stamp = epochFromYmdHms y m d hh mm ss := by
  obtain ⟨hy, h⟩ := @field_eq stamp _ 0 4 y (by decide) hy h
  obtain ⟨hm, h⟩ := field_eq (by decide) hm h
  obtain ⟨hd, h⟩ := field_eq (by decide) hd h
  have h : stamp.toList.drop 9 = zeroPad 2 hh ++ (zeroPad 2 mm ++ (zeroPad 2 ss ++ ['Z'])) := by
    rw [show 9 = 0 + 4 + 2 + 2 + 1 by rfl, ← List.drop_drop, h]
    rfl
  obtain ⟨hhour, h⟩ := field_eq (by decide) hhour h
  obtain ⟨hminute, h⟩ := field_eq (by decide) hminute h
  obtain ⟨hsecond, -⟩ := field_eq (by decide) hsecond h
  rw [epochOfAmzdate, hy, hm, hd, hhour, hminute, hsecond]

/-- The fields of a written time are those of the second. -/
theorem epochOfAmzdate_epochToAmzdate {secs : Nat} (h : secs < 253402300800) :
    epochOfAmzdate (epochToAmzdate secs) = some secs := by
  obtain ⟨date, hdate, hyear, hyear'⟩ := exists_date h
  obtain ⟨year, hnat⟩ := Int.eq_ofNat_of_zero_le (show 0 ≤ date.year by omega)
  have hmonth := date.month_le
  have hday := date.day_le
  have hmax := monthLength_le date.year date.month
  have hstamp : (epochToAmzdate secs).toList = zeroPad 4 year ++ (zeroPad 2 date.month ++
      (zeroPad 2 date.day ++ ('T' :: (zeroPad 2 (secs % 86400 / 3600 : Nat) ++
        (zeroPad 2 (secs % 86400 % 3600 / 60 : Nat) ++ (zeroPad 2 (secs % 86400 % 60 : Nat) ++
          ['Z'])))))) := by
    rw [epochToAmzdate, civilTime_eq hdate, hnat, String.toList_ofList]
    simp only [List.append_assoc, List.cons_append, List.nil_append]
  rw [epochOfAmzdate_eq (by omega) (by omega) (by omega) (by omega) (by omega) (by omega) hstamp,
    ← hnat, (epochFromYmdHms_eq hyear (by omega) (by omega) (by omega)).2, hdate]
  refine congrArg some ?_
  omega

/-! ## The order of the times -/

/-- A time that is accepted; 60 seconds are those of a minute with a leap second. -/
structure Moment where
  date : Date
  hour : Nat
  minute : Nat
  second : Nat
  hour_le : hour ≤ 23
  minute_le : minute ≤ 59
  second_le : second ≤ 60

namespace Moment

def epoch (t : Moment) : Option Nat :=
  epochFromYmdHms t.date.year t.date.month t.date.day t.hour t.minute t.second

/-- The earlier date, else the earlier hour, else the earlier minute, else the earlier second. -/
def Before (a b : Moment) : Prop :=
  a.date.Before b.date ∨ a.date = b.date ∧ (a.hour < b.hour ∨ a.hour = b.hour ∧
    (a.minute < b.minute ∨ a.minute = b.minute ∧ a.second < b.second))

theorem year_le {a b : Moment} (h : a.Before b) : a.date.year ≤ b.date.year := by
  rcases h with hdate | ⟨hdate, -⟩
  · unfold Date.Before at hdate
    omega
  · rw [hdate]

/-- The seconds are in the order of the times. A leap second is the first one of the next minute. -/
theorem epoch_lt {a b : Moment} (hyear : 1970 ≤ a.date.year) (h : a.Before b) :
    ∃ v w, a.epoch = some v ∧ b.epoch = some w ∧ v ≤ w ∧ (a.second ≤ 59 → v < w) := by
  obtain ⟨hpos, ha⟩ := epochFromYmdHms_eq hyear a.hour_le a.minute_le a.second_le
  obtain ⟨-, hb⟩ := epochFromYmdHms_eq (hyear.trans (year_le h)) b.hour_le b.minute_le b.second_le
  have hhour := a.hour_le
  have hminute := a.minute_le
  have hsecond := a.second_le
  refine ⟨_, _, ha, hb, ?_⟩
  rcases h with hdate | ⟨hdate, htime⟩
  · have hlt := Date.number_lt hdate
    omega
  · rw [hdate]
    omega

end Moment

/-- The two conversions are inverse up to the year 9999. The one that reads keeps the order of all
times but for the leap seconds, and takes no day that its month does not have. -/
theorem calendar_conversions :
    (∀ secs < 253402300800, epochOfAmzdate (epochToAmzdate secs) = some secs) ∧
      (∀ a b : Moment, 1970 ≤ a.date.year → a.Before b →
        ∃ v w, a.epoch = some v ∧ b.epoch = some w ∧ v ≤ w ∧ (a.second ≤ 59 → v < w)) ∧
      ∀ (y : Int) (m d hh mm ss : Nat), monthLength y m < d →
        epochFromYmdHms y m d hh mm ss = none :=
  ⟨fun _ h => epochOfAmzdate_epochToAmzdate h, fun _ _ hyear h => Moment.epoch_lt hyear h,
    fun _ _ _ hh mm ss h => epochFromYmdHms_past_month h hh mm ss⟩

/-- The leap second that ended 2016, and the second after it. -/
def leapSecond : Moment :=
  ⟨⟨2016, 12, 31, by decide, by decide, by decide, by decide⟩, 23, 59, 60, by decide, by decide,
    by decide⟩
def newYear : Moment :=
  ⟨⟨2017, 1, 1, by decide, by decide, by decide, by decide⟩, 0, 0, 0, by decide, by decide,
    by decide⟩

theorem leap_second_not_before :
    leapSecond.Before newYear ∧ leapSecond.epoch = some 1483228800 ∧
      newYear.epoch = some 1483228800 ∧
      ¬∀ a b : Moment, 1970 ≤ a.date.year → a.Before b →
        ∃ v w, a.epoch = some v ∧ b.epoch = some w ∧ v < w := by
  have hbefore : leapSecond.Before newYear := .inl (.inl (by decide))
  have hleap : leapSecond.epoch = some 1483228800 := by decide
  have hnew : newYear.epoch = some 1483228800 := by decide
  refine ⟨hbefore, hleap, hnew, fun h => ?_⟩
  obtain ⟨v, w, hv, hw, hlt⟩ := h _ _ (by decide) hbefore
  rw [hleap] at hv
  rw [hnew] at hw
  cases hv
  cases hw
  exact absurd hlt (lt_irrefl _)

end Rsurl.Sigv4
