import Mathlib

/-!
# The Gregorian calendar

Dates and the day they are, counted from 1 March of the year 0, so that a leap day ends its year.
Every day has one date, the dates are in the order of their days, and the era, the year and the
month of a day are found by division.
-/

namespace Rsurl.Library.Calendar

def IsLeap (year : Int) : Prop := year % 4 = 0 ∧ year % 100 ≠ 0 ∨ year % 400 = 0

instance (year : Int) : Decidable (IsLeap year) := inferInstanceAs (Decidable (_ ∨ _))

def monthLength (year : Int) (month : Nat) : Nat :=
  match month with
  | 2 => if IsLeap year then 29 else 28
  | 4 | 6 | 9 | 11 => 30
  | _ => 31

theorem monthLength_ge (year : Int) (month : Nat) : 28 ≤ monthLength year month := by
  unfold monthLength
  split <;> (try split) <;> omega

theorem monthLength_le (year : Int) (month : Nat) : monthLength year month ≤ 31 := by
  unfold monthLength
  split <;> (try split) <;> omega

theorem february (year : Int) :
    IsLeap year ∧ monthLength year 2 = 29 ∨ ¬IsLeap year ∧ monthLength year 2 = 28 := by
  by_cases h : IsLeap year
  · exact .inl ⟨h, if_pos h⟩
  · exact .inr ⟨h, if_neg h⟩

/-- A day there is. -/
@[ext] structure Date where
  year : Int
  month : Nat
  day : Nat
  month_pos : 1 ≤ month
  month_le : month ≤ 12
  day_pos : 1 ≤ day
  day_le : day ≤ monthLength year month

/-- The first day of a year that starts in March. -/
def yearStart (year : Int) : Int := 365 * year + year / 4 - year / 100 + year / 400

/-- The days of such a year before one of its months. -/
def monthStart (month : Int) : Int := (153 * month + 2) / 5

/-- The first day of a month, the months counted from March of the year 0. -/
def firstDay (n : Int) : Int := yearStart (n / 12) + monthStart (n % 12)

/-- The month of a date, so counted. -/
def monthNumber (year : Int) (month : Nat) : Int := 12 * year + month - 3

namespace Date

def number (date : Date) : Int := firstDay (monthNumber date.year date.month) + date.day - 1

/-- The earlier year, else the earlier month, else the earlier day. -/
def Before (a b : Date) : Prop :=
  a.year < b.year ∨
    a.year = b.year ∧ (a.month < b.month ∨ a.month = b.month ∧ a.day < b.day)

/-- The day after. -/
def next (date : Date) : Date :=
  if hday : date.day < monthLength date.year date.month then
    { date with day := date.day + 1, day_pos := by omega, day_le := hday }
  else if hmonth : date.month < 12 then
    { year := date.year, month := date.month + 1, day := 1
      month_pos := by omega
      month_le := hmonth
      day_pos := le_rfl
      day_le := le_trans (by omega) (monthLength_ge _ _) }
  else
    { year := date.year + 1, month := 1, day := 1
      month_pos := le_rfl
      month_le := by omega
      day_pos := le_rfl
      day_le := le_trans (by omega) (monthLength_ge _ _) }

end Date

/-! ## Months -/

theorem firstDay_add (year : Int) {month : Int} (h : 0 ≤ month) (h' : month < 12) :
    firstDay (12 * year + month) = yearStart year + monthStart month := by
  have hdiv : (12 * year + month) / 12 = year := by omega
  have hmod : (12 * year + month) % 12 = month := by omega
  rw [firstDay, hdiv, hmod]

/-- A month ends where the next one starts. -/
theorem firstDay_succ (year : Int) {month : Nat} (h : 1 ≤ month) (h' : month ≤ 12) :
    firstDay (monthNumber year month + 1) =
      firstDay (monthNumber year month) + monthLength year month := by
  by_cases hfeb : month = 2
  · subst hfeb
    have hnumber : monthNumber year 2 = 12 * (year - 1) + 11 := by
      unfold monthNumber
      omega
    have hnext : monthNumber year 2 + 1 = 12 * year + 0 := by
      unfold monthNumber
      omega
    have hlength := february year
    unfold IsLeap at hlength
    rw [hnext, hnumber, firstDay_add _ (by decide) (by decide),
      firstDay_add _ (by decide) (by decide)]
    unfold yearStart monthStart
    omega
  · -- the year that starts in March goes on
    obtain ⟨first, n, hnumber, hn, hlt, hmonth⟩ : ∃ first n : Int,
        monthNumber year month = 12 * first + n ∧ 0 ≤ n ∧ n + 1 < 12 ∧ n = (month + 9) % 12 :=
      ⟨monthNumber year month / 12, monthNumber year month % 12, by omega, by omega,
        by unfold monthNumber; omega, by unfold monthNumber; omega⟩
    have hlength : monthStart (n + 1) = monthStart n + monthLength year month := by
      subst hmonth
      interval_cases month <;> first | exact absurd rfl hfeb | rfl
    rw [hnumber, add_assoc, firstDay_add _ (by omega) hlt, firstDay_add _ hn (by omega), hlength,
      add_assoc]

theorem firstDay_lt_succ (n : Int) : firstDay n < firstDay (n + 1) := by
  unfold firstDay yearStart monthStart
  omega

theorem firstDay_strictMono : StrictMono firstDay := strictMono_int_of_lt_succ firstDay_lt_succ

/-! ## Days -/

namespace Date

/-- The dates are in the order of their days. -/
theorem number_lt {a b : Date} (h : a.Before b) : a.number < b.number := by
  have ha := a.day_le
  have hb := b.day_pos
  have hend := firstDay_succ a.year a.month_pos a.month_le
  unfold number
  have hmonth : monthNumber a.year a.month < monthNumber b.year b.month ∨
      a.year = b.year ∧ a.month = b.month ∧ a.day < b.day := by
    have := a.month_pos
    have := a.month_le
    have := b.month_pos
    have := b.month_le
    unfold Before at h
    unfold monthNumber
    omega
  rcases hmonth with hmonth | ⟨hyear, hmonth, hday⟩
  · have hstart := firstDay_strictMono.monotone (Int.add_one_le_iff.mpr hmonth)
    omega
  · rw [hyear, hmonth]
    omega

theorem number_next (date : Date) : date.next.number = date.number + 1 := by
  have hend := firstDay_succ date.year date.month_pos date.month_le
  have hle := date.day_le
  have hmonth := date.month_le
  unfold next
  split
  · unfold number
    dsimp only
    omega
  · split
    · have hnumber : monthNumber date.year (date.month + 1) = monthNumber date.year date.month + 1 := by
        unfold monthNumber
        omega
      unfold number
      dsimp only
      rw [hnumber]
      omega
    · have hnumber : monthNumber (date.year + 1) 1 = monthNumber date.year date.month + 1 := by
        unfold monthNumber
        omega
      unfold number
      dsimp only
      rw [hnumber]
      omega

/-- Every day from that of a date on is the day of a date. -/
theorem exists_number (first : Date) {n : Int} (h : first.number ≤ n) :
    ∃ date : Date, date.number = n := by
  induction n, h using Int.leInduction with
  | base => exact ⟨first, rfl⟩
  | succ n _ ih =>
    obtain ⟨date, hdate⟩ := ih
    exact ⟨date.next, by rw [number_next, hdate]⟩

end Date

/-! ## By division -/

/-- The days of an era of 400 years that starts in March, before one of its years. -/
def eraDays (year : Int) : Int := 365 * year + year / 4 - year / 100

/-- The year of an era that has a day. A leap day is the last of its year. -/
theorem yearOfEra_eq {year day : Int} (hyear : 0 ≤ year) (hlt : year < 400) (hday : 0 ≤ day)
    (hlen : day < 365 ∨ day = 365 ∧ IsLeap (year + 1)) :
    (eraDays year + day - (eraDays year + day) / 1460 + (eraDays year + day) / 36524 -
      (eraDays year + day) / 146096) / 365 = year := by
  -- the centuries, the spans of four years and the years in one
  obtain ⟨c, b, a, hc, hb, ha, rfl⟩ : ∃ c b a : Int, (0 ≤ c ∧ c < 4) ∧ (0 ≤ b ∧ b < 25) ∧
      (0 ≤ a ∧ a < 4) ∧ year = 100 * c + 4 * b + a :=
    ⟨year / 100, year % 100 / 4, year % 4, by omega, by omega, by omega, by omega⟩
  have hdays : eraDays (100 * c + 4 * b + a) = 36524 * c + 1461 * b + 365 * a := by
    unfold eraDays
    omega
  have hleap : day = 365 → a = 3 ∧ (b < 24 ∨ c = 3) := by
    unfold IsLeap at hlen
    omega
  rw [hdays]
  generalize hdoe : 36524 * c + 1461 * b + 365 * a + day = doe
  have hcentury : doe / 36524 - doe / 146096 = c := by
    obtain ⟨rest, hrest⟩ : ∃ rest, rest = 1461 * b + 365 * a + day := ⟨_, rfl⟩
    have hlast : 0 ≤ rest ∧ (rest ≤ 36523 ∨ rest = 36524 ∧ c = 3) := by omega
    have hdoe' : doe = 36524 * c + rest := by omega
    clear hdoe hrest hdays
    omega
  have hspan : 25 * c + b ≤ doe / 1460 ∧ doe / 1460 ≤ 25 * c + b + 1 := by omega
  omega

/-- The month that has a day of the year, by Zeller's fifth of 153 days. -/
theorem month_eq {month day : Int} (hday : 0 ≤ day)
    (hlen : monthStart month + day < monthStart (month + 1)) :
    (5 * (monthStart month + day) + 2) / 153 = month := by
  unfold monthStart at hlen ⊢
  omega

namespace Date

/-- The year of a date, started in March, and the month and the day in it. -/
def marchYear (date : Date) : Int := monthNumber date.year date.month / 12
def marchMonth (date : Date) : Int := monthNumber date.year date.month % 12
def dayOfYear (date : Date) : Int := monthStart date.marchMonth + date.day - 1

theorem dayOfYear_lt (date : Date) : date.dayOfYear < monthStart (date.marchMonth + 1) := by
  obtain ⟨year, month, day, hpos, hle, hday, hlen⟩ := date
  unfold dayOfYear marchMonth monthStart monthNumber
  by_cases hfeb : month = 2
  · subst hfeb
    have hlength := february year
    dsimp only at hlen ⊢
    omega
  · unfold monthLength at hlen
    interval_cases month <;> simp only [Nat.cast_ofNat, Nat.cast_one] at hlen ⊢ <;> omega

/-- Only a leap year has a day 365. -/
theorem dayOfYear_bounds (date : Date) :
    0 ≤ date.dayOfYear ∧
      (date.dayOfYear < 365 ∨ date.dayOfYear = 365 ∧ IsLeap (date.marchYear % 400 + 1)) := by
  obtain ⟨year, month, day, hpos, hle, hday, hlen⟩ := date
  unfold dayOfYear marchMonth marchYear monthStart monthNumber
  by_cases hfeb : month = 2
  · subst hfeb
    have hlength := february year
    unfold IsLeap at hlength ⊢
    dsimp only at hlen ⊢
    omega
  · unfold monthLength at hlen
    interval_cases month <;> simp only [Nat.cast_ofNat, Nat.cast_one] at hlen ⊢ <;> omega

theorem number_eq (date : Date) :
    date.number =
      146097 * (date.marchYear / 400) + (eraDays (date.marchYear % 400) + date.dayOfYear) := by
  unfold number firstDay yearStart eraDays dayOfYear marchYear marchMonth
  omega

/-- A day of an era stays in it. -/
theorem dayOfEra_bounds (date : Date) :
    0 ≤ eraDays (date.marchYear % 400) + date.dayOfYear ∧
      eraDays (date.marchYear % 400) + date.dayOfYear < 146097 := by
  obtain ⟨hpos, hlt⟩ := date.dayOfYear_bounds
  unfold eraDays
  unfold IsLeap at hlt
  omega

end Date

/-! ## Days of the week -/

namespace Date

/-- The day of the week, 0 for a Sunday. 1 March of the year 0 is a Wednesday. -/
def weekday (date : Date) : Nat := ((date.number + 3) % 7).toNat

theorem weekday_next (date : Date) : date.next.weekday = (date.weekday + 1) % 7 := by
  unfold weekday
  rw [number_next]
  omega

-- 1 January 2000, a Saturday
example : (⟨2000, 1, 1, by decide, by decide, by decide, by decide⟩ : Date).weekday = 6 := by decide

end Date

end Rsurl.Library.Calendar
