import Gatehouse.Time.Calendar

/-!
# Days and their dates

With years that start in March, a day has a place in the calendar: a cycle of 400 years, a century of the cycle, four
years of the century, a year of these, and a day of the year. The date of a place exists and is numbered as the place
is, so every day comes back from its date.
-/

namespace Gatehouse.Date

/-- A place in the calendar of years that start in March. Only a last year of four has a day 365, and of the last four
years of a century only those of the last century. -/
structure Place where
  cycle : Int
  century : Nat
  four : Nat
  year : Nat
  day : Nat
  century_le : century ≤ 3
  four_le : four ≤ 24
  year_le : year ≤ 3
  day_le : day ≤ 365
  leap : day = 365 → year = 3 ∧ (four = 24 → century = 3)

namespace Place

/-- The day of the cycle. -/
def dayOfCycle (p : Place) : Nat := 36524 * p.century + 1461 * p.four + 365 * p.year + p.day

/-- The year of the cycle. -/
def yearOfCycle (p : Place) : Nat := 100 * p.century + 4 * p.four + p.year

/-- The number of the day, counted from 1 January 1970. -/
def number (p : Place) : Int := 146097 * p.cycle + p.dayOfCycle - 719468

/-- The number of months since March. -/
def months (p : Place) : Nat := (5 * p.day + 2) / 153

/-- The date of a place. -/
def date (p : Place) : Date :=
  let month := if p.months < 10 then p.months + 3 else p.months - 9
  { year := p.yearOfCycle + p.cycle * 400 + (if month ≤ 2 then 1 else 0)
    month := month
    day := p.day - monthStart p.months + 1 }

/-- Every day of a cycle has a century, four years, a year and a day of the year. -/
theorem exists_parts {d : Nat} (h : d < 146097) :
    ∃ c f y t, d = 36524 * c + 1461 * f + 365 * y + t ∧ c ≤ 3 ∧ f ≤ 24 ∧ y ≤ 3 ∧ t ≤ 365 ∧
      (t = 365 → y = 3 ∧ (f = 24 → c = 3)) := by
  -- The last century and the last year of four are one day longer than the others, hence the bounds.
  obtain ⟨c, hc⟩ : ∃ c, c = min (d / 36524) 3 := ⟨_, rfl⟩
  obtain ⟨e, he⟩ : ∃ e, e = d - 36524 * c := ⟨_, rfl⟩
  obtain ⟨y, hy⟩ : ∃ y, y = min (e % 1461 / 365) 3 := ⟨_, rfl⟩
  exact ⟨c, e / 1461, y, e % 1461 - 365 * y, by omega⟩

/-- Every day has a place. -/
theorem exists_number (n : Int) : ∃ p : Place, p.number = n := by
  have hlt : ((n + 719468) % 146097).toNat < 146097 := by omega
  obtain ⟨c, f, y, t, hd, hc, hf, hy, ht, hleap⟩ := exists_parts hlt
  refine ⟨⟨(n + 719468) / 146097, c, f, y, t, hc, hf, hy, ht, hleap⟩, ?_⟩
  simp only [number, dayOfCycle, ← hd]
  omega

/-- The days before a year, of which every fourth is longer by one, except at the end of a century. -/
theorem dayOfCycle_eq (p : Place) :
    p.dayOfCycle = p.yearOfCycle * 365 + p.yearOfCycle / 4 - p.yearOfCycle / 100 + p.day := by
  obtain ⟨_, c, f, y, t, hc, hf, hy, ht, hleap⟩ := p
  have hfour : (100 * c + 4 * f + y) / 4 = 25 * c + f := by omega
  have hhundred : (100 * c + 4 * f + y) / 100 = c := by omega
  simp only [dayOfCycle, yearOfCycle, hfour, hhundred]
  omega

/-- The year of a day of the cycle is found by taking off the days by which the years before it were too long. -/
theorem yearOfCycle_eq (p : Place) :
    (p.dayOfCycle - p.dayOfCycle / 1460 + p.dayOfCycle / 36524 - p.dayOfCycle / 146096) / 365 = p.yearOfCycle := by
  obtain ⟨d, hd⟩ : ∃ d, d = p.dayOfCycle := ⟨_, rfl⟩
  rw [← hd]
  obtain ⟨_, c, f, y, t, hc, hf, hy, ht, hleap⟩ := p
  simp only [dayOfCycle] at hd
  simp only [yearOfCycle]
  have hcentury : d / 36524 = c + d / 146096 := by
    by_cases hlast : d = 146096
    · omega
    · have hlow : d < 36524 * (c + 1) := by omega
      have hzero : d / 146096 = 0 := by omega
      omega
  have hlong : d / 1460 = 25 * c + f + (24 * c + f + 365 * y + t) / 1460 := by omega
  have hlast : t = 365 → (24 * c + f + 365 * y + t) / 1460 = 1 := by omega
  have hother : t < 365 → (24 * c + f + 365 * y + t) / 1460 ≤ t := by omega
  omega

/-- The date of a day is the date of its place. -/
theorem ofDay_number (p : Place) : ofDay p.number = p.date := by
  have hlt : p.dayOfCycle < 146097 := by
    obtain ⟨_, c, f, y, t, hc, hf, hy, ht, hleap⟩ := p
    simp only [dayOfCycle]
    omega
  have hcycle : (p.number + 719468) / 146097 = p.cycle := by
    simp only [number]
    omega
  have hday : ((p.number + 719468) % 146097).toNat = p.dayOfCycle := by
    simp only [number]
    omega
  have hyear := p.yearOfCycle_eq
  have hrest : p.dayOfCycle - (365 * p.yearOfCycle + p.yearOfCycle / 4 - p.yearOfCycle / 100) = p.day := by
    have heq := p.dayOfCycle_eq
    omega
  simp only [ofDay, hcycle, hday, hyear, hrest]
  rfl

/-! ## The date of a place -/

theorem months_le (p : Place) : p.months ≤ 11 := by
  have hday := p.day_le
  simp only [months]
  omega

theorem monthStart_months_le (p : Place) : monthStart p.months ≤ p.day := by
  simp only [monthStart, months]
  omega

/-- The year since March is the one before in January and February. -/
theorem date_year (p : Place) :
    (if p.date.month ≤ 2 then p.date.year - 1 else p.date.year) = p.yearOfCycle + p.cycle * 400 := by
  simp only [date]
  split <;> omega

theorem date_month (p : Place) : (p.date.month + 9) % 12 = p.months := by
  have hmonths := p.months_le
  simp only [date]
  split <;> omega

theorem date_month_le (p : Place) : p.date.month ≤ 2 ↔ 306 ≤ p.day := by
  have hle := p.months_le
  have hmonths : p.months = (5 * p.day + 2) / 153 := rfl
  simp only [date]
  split <;> omega

/-- The date of a place has the number of the place. -/
theorem toDay_date (p : Place) : toDay p.date = p.number := by
  have hcentury := p.century_le
  have hfour := p.four_le
  have hyear := p.year_le
  have hlt : p.yearOfCycle < 400 := by
    simp only [yearOfCycle]
    omega
  have hcycle : (p.yearOfCycle + p.cycle * 400) / 400 = p.cycle := by omega
  have hof : ((p.yearOfCycle + p.cycle * 400) % 400).toNat = p.yearOfCycle := by omega
  have hday : monthStart p.months + p.date.day - 1 = p.day := by
    have hstart := p.monthStart_months_le
    simp only [date]
    omega
  simp only [toDay, p.date_year, p.date_month, hcycle, hof, hday, number, p.dayOfCycle_eq]
  omega

/-- A year that has a day 365 ends in February of a leap year. -/
theorem isLeap_of_day (p : Place) (h : p.day = 365) : isLeap (p.yearOfCycle + p.cycle * 400 + 1) = true := by
  obtain ⟨hyear, hlast⟩ := p.leap h
  have hfour := p.four_le
  have hcentury := p.century_le
  have hdiv : ((p.yearOfCycle + p.cycle * 400 + 1 : Int)) % 4 = 0 := by
    simp only [yearOfCycle]
    omega
  have hcases : ((p.yearOfCycle + p.cycle * 400 + 1 : Int)) % 100 ≠ 0 ∨
      ((p.yearOfCycle + p.cycle * 400 + 1 : Int)) % 400 = 0 := by
    simp only [yearOfCycle]
    omega
  simpa [isLeap, hdiv] using hcases

/-- A month other than February ends where the next one starts. -/
theorem daysIn_eq {months : Nat} (h : months ≤ 10) (year : Int) :
    daysIn year (if months < 10 then months + 3 else months - 9) = monthStart (months + 1) - monthStart months := by
  have hcases : months = 0 ∨ months = 1 ∨ months = 2 ∨ months = 3 ∨ months = 4 ∨ months = 5 ∨ months = 6 ∨
      months = 7 ∨ months = 8 ∨ months = 9 ∨ months = 10 := by omega
  rcases hcases with h | h | h | h | h | h | h | h | h | h | h <;> simp [h, daysIn, monthStart]

/-- A month is long enough for the days that fall into it. -/
theorem date_day_le (p : Place) : p.date.day ≤ daysIn p.date.year p.date.month := by
  have hstart := p.monthStart_months_le
  have hle := p.months_le
  by_cases hfebruary : p.months = 11
  · have hday := p.day_le
    have hmonth : p.date.month = 2 := by simp [date, hfebruary]
    have hof : p.date.day = p.day - 337 + 1 := by simp [date, monthStart, hfebruary]
    rw [hmonth, hof, daysIn, if_pos rfl]
    by_cases hlast : p.day = 365
    · have hyear : p.date.year = p.yearOfCycle + p.cycle * 400 + 1 := by simp [date, hfebruary]
      rw [hyear, p.isLeap_of_day hlast, if_pos rfl]
      omega
    · split <;> omega
  · have hend : p.day < monthStart (p.months + 1) := by
      simp only [monthStart, months]
      omega
    simp only [date]
    rw [daysIn_eq (by omega)]
    omega

/-- The date of a place exists. -/
theorem isValid_date (p : Place) : p.date.isValid = true := by
  have hmonths := p.months_le
  have hday := p.date_day_le
  have hmonth : 1 ≤ p.date.month ∧ p.date.month ≤ 12 := by
    simp only [date]
    split <;> omega
  have hfirst : 1 ≤ p.date.day := by
    simp only [date]
    omega
  simp [isValid, hmonth, hfirst, hday]

end Place

/-- The days from -96465292 to 95026236 are those of the years from -262143 to 262142. -/
theorem year_ofDay {n : Int} (hlow : -96465292 ≤ n) (hhigh : n ≤ 95026236) :
    -262143 ≤ (ofDay n).year ∧ (ofDay n).year ≤ 262142 := by
  obtain ⟨p, rfl⟩ := Place.exists_number n
  have hyear := p.date_year
  have hmonth := p.date_month_le
  have hcentury := p.century_le
  have hfour := p.four_le
  have hyears := p.year_le
  have hday := p.day_le
  rw [p.ofDay_number]
  simp only [Place.number, Place.dayOfCycle] at hlow hhigh
  simp only [Place.yearOfCycle] at hyear
  have hcycle : -656 ≤ p.cycle ∧ p.cycle ≤ 655 := by omega
  have hfirst : p.cycle = -656 → 256 < 100 * p.century + 4 * p.four + p.year ∨
      256 = 100 * p.century + 4 * p.four + p.year ∧ 306 ≤ p.day := by omega
  have hlast : p.cycle = 655 → 100 * p.century + 4 * p.four + p.year < 142 ∨
      100 * p.century + 4 * p.four + p.year = 142 ∧ p.day < 306 := by omega
  split at hyear <;> omega

/-- Every day comes back from its date. -/
@[simp]
theorem toDay_ofDay (n : Int) : toDay (ofDay n) = n := by
  obtain ⟨p, rfl⟩ := Place.exists_number n
  rw [p.ofDay_number, p.toDay_date]

/-- The date of a day exists. -/
@[simp]
theorem isValid_ofDay (n : Int) : (ofDay n).isValid = true := by
  obtain ⟨p, rfl⟩ := Place.exists_number n
  rw [p.ofDay_number, p.isValid_date]

/-- A date that exists has fields of two digits. -/
theorem lt_of_isValid {d : Date} (h : d.isValid = true) : d.month < 100 ∧ d.day < 100 := by
  have hdays : daysIn d.year d.month ≤ 31 := by
    unfold daysIn
    split
    · split <;> decide
    · split <;> decide
  simp only [isValid, Bool.and_eq_true, decide_eq_true_eq] at h
  omega

end Gatehouse.Date
