import GraphqlStore.Timestamp.Calendar

/-!
Day numbers and dates are two forms of one thing: every day number has a date
that exists, and the day number of that date is the one it came from. Dates are
counted from March in between. The year of a day is found by counting the days
of its era without leap days: a year begins exactly where this count reaches a
multiple of 365.
-/

set_option autoImplicit false

namespace GraphqlStore

namespace Date

/-! ## Years of an era -/

/-- The days of an era before a year that starts with March. -/
def yearStart (year : Int) : Int := 365 * year + year / 4 - year / 100 + year / 400

/-- The days of an era before a day, without leap days. -/
def leapless (day : Int) : Int := day - day / 1460 + day / 36524 - day / 146096

private theorem leapless_mono {first second : Int} (ordered : first ≤ second) :
    leapless first ≤ leapless second := by
  have quads : second / 1460 - first / 1460 ≤ second - first := by omega
  have centuries : first / 36524 - first / 146096 ≤ second / 36524 - second / 146096 := by
    have eras (day : Int) : day / 146096 = day / 36524 / 4 := by omega
    have counted := Int.ediv_le_ediv (by decide : (0 : Int) < 36524) ordered
    rw [eras, eras]
    omega
  unfold leapless
  omega

private theorem leapless_yearStart :
    ∀ year < 400, 0 < year → leapless (yearStart (year : Nat) - 1) < 365 * year ∧
      365 * year ≤ leapless (yearStart (year : Nat)) := by
  decide +kernel

private theorem yearStart_le_lt {day : Int} (start : 0 ≤ day) (finish : day < eraLength) :
    (0 ≤ leapless day / 365 ∧ leapless day / 365 < 400) ∧
      yearStart (leapless day / 365) ≤ day ∧ day < yearStart (leapless day / 365 + 1) := by
  have least : 0 ≤ leapless day := leapless_mono start
  have most : leapless day ≤ 145999 :=
    leapless_mono (show day ≤ 146096 by unfold eraLength at finish; omega)
  have counts (year : Int) (bounds : 0 < year ∧ year < 400) :
      leapless (yearStart year - 1) < 365 * year ∧ 365 * year ≤ leapless (yearStart year) := by
    obtain ⟨number, rfl⟩ := Int.eq_ofNat_of_zero_le (Int.le_of_lt bounds.1)
    exact leapless_yearStart number (by omega) (by omega)
  generalize same : leapless day / 365 = year
  have bounds : 0 ≤ year ∧ year < 400 := by omega
  refine ⟨bounds, Int.not_lt.1 fun early => ?_, Int.not_le.1 fun late => ?_⟩
  · by_cases first : year = 0
    · subst first
      exact Int.not_lt.2 start early
    · have before := leapless_mono (show day ≤ yearStart year - 1 by omega)
      have begins := counts year (by omega)
      omega
  · by_cases last : year = 399
    · subst last
      exact Int.not_le.2 finish late
    · have after := leapless_mono late
      have begins := counts (year + 1) (by omega)
      omega

theorem isLeapYear_eq_true_iff {year : Int} :
    isLeapYear year = true ↔ year % 4 = 0 ∧ (year % 100 ≠ 0 ∨ year % 400 = 0) := by
  simp [isLeapYear]

private theorem yearStart_succ (year : Int) :
    yearStart (year + 1) = yearStart year + if isLeapYear (year + 1) then 366 else 365 := by
  unfold yearStart
  by_cases leap : isLeapYear (year + 1) = true
  · rw [if_pos leap]
    rw [isLeapYear_eq_true_iff] at leap
    omega
  · rw [if_neg leap]
    rw [isLeapYear_eq_true_iff] at leap
    omega

private theorem isLeapYear_add_eras (year era : Int) :
    isLeapYear (year + era * 400) = isLeapYear year := by
  rw [Bool.eq_iff_iff, isLeapYear_eq_true_iff, isLeapYear_eq_true_iff]
  omega

/-! ## Dates counted from March -/

/-- The days of a year that starts with March before one of its months. -/
def monthStart (month : Int) : Int := (153 * month + 2) / 5

private theorem monthStart_le_lt {day : Int} (start : 0 ≤ day) (finish : day ≤ 365) :
    (0 ≤ (5 * day + 2) / 153 ∧ (5 * day + 2) / 153 < 12) ∧
      monthStart ((5 * day + 2) / 153) ≤ day ∧ day < monthStart ((5 * day + 2) / 153 + 1) := by
  unfold monthStart
  omega

/-- A date counted from March: the era, the year of it, the month and the day, all from zero. -/
structure FromMarch where
  era : Int
  year : Int
  month : Int
  day : Int
  yearBound : 0 ≤ year ∧ year < 400
  monthBound : 0 ≤ month ∧ month < 12
  dayBound : 0 ≤ day ∧ monthStart month + day < monthStart (month + 1)
  dayOfYearBound : monthStart month + day < yearStart (year + 1) - yearStart year

namespace FromMarch

def calendar (march : FromMarch) : Date :=
  ⟨if march.month < 10 then march.year + march.era * 400 else march.year + march.era * 400 + 1,
    (if march.month < 10 then march.month + 3 else march.month - 9).toNat, (march.day + 1).toNat⟩

def number (march : FromMarch) : Int :=
  march.era * eraLength + yearStart march.year + monthStart march.month + march.day - epochOffset

private theorem toDays_calendar (march : FromMarch) : march.calendar.toDays = march.number := by
  obtain ⟨era, year, month, day, yearBound, monthBound, dayBound, _⟩ := march
  have sameEra : (year + era * 400) / 400 = era := by omega
  have sameYear : (year + era * 400) % 400 = year := by omega
  have noCycle : year / 400 = 0 := by omega
  by_cases early : month < 10
  · have sameMonth : ((month + 3).toNat : Int) - 3 = month := by omega
    have later : ¬ (month + 3).toNat ≤ 2 := by omega
    simp only [calendar, toDays, number, yearStart, monthStart, if_pos early, if_neg later,
      sameEra, sameYear, sameMonth, noCycle]
    omega
  · have sameMonth : ((month - 9).toNat : Int) + 9 = month := by omega
    have later : (month - 9).toNat ≤ 2 := by omega
    simp only [calendar, toDays, number, yearStart, monthStart, if_neg early, if_pos later,
      Int.add_sub_cancel, sameEra, sameYear, sameMonth, noCycle]
    omega

/-- A month from March to January is as long as the count of months says, and February takes
what is left of the year. -/
theorem exists?_calendar (march : FromMarch) : march.calendar.exists? = true := by
  obtain ⟨era, year, month, day, _, monthBound, dayBound, dayOfYearBound⟩ := march
  unfold monthStart at dayBound dayOfYearBound
  simp only [exists?, calendar, Bool.and_eq_true, decide_eq_true_iff]
  by_cases early : month < 10
  · simp only [if_pos early]
    refine ⟨⟨⟨by omega, by omega⟩, by omega⟩, ?_⟩
    unfold monthLength
    rw [if_neg (by omega)]
    split <;> omega
  · simp only [if_neg early]
    refine ⟨⟨⟨by omega, by omega⟩, by omega⟩, ?_⟩
    by_cases february : month = 11
    · subst february
      rw [yearStart_succ] at dayOfYearBound
      have sameLeap : isLeapYear (year + era * 400 + 1) = isLeapYear (year + 1) := by
        rw [Int.add_right_comm, isLeapYear_add_eras]
      show (day + 1).toNat ≤ if isLeapYear (year + era * 400 + 1) then 29 else 28
      rw [sameLeap]
      by_cases leap : isLeapYear (year + 1) = true
      · rw [if_pos leap] at dayOfYearBound ⊢
        omega
      · rw [if_neg leap] at dayOfYearBound ⊢
        omega
    · have january : (month - 9).toNat = 1 := by omega
      rw [january]
      show (day + 1).toNat ≤ 31
      omega

end FromMarch

theorem ofDays_eq_calendar (days : Int) :
    ∃ march : FromMarch, ofDays days = march.calendar ∧ march.number = days := by
  have start : 0 ≤ (days + epochOffset) % eraLength := Int.emod_nonneg _ (by decide)
  have finish : (days + epochOffset) % eraLength < eraLength := Int.emod_lt_of_pos _ (by decide)
  have counted := Int.mul_ediv_add_emod (days + epochOffset) eraLength
  obtain ⟨yearBound, began, ends⟩ := yearStart_le_lt start finish
  unfold ofDays
  simp only
  rw [← leapless]
  generalize (days + epochOffset) / eraLength = era at counted ⊢
  generalize (days + epochOffset) % eraLength = dayOfEra at *
  generalize leapless dayOfEra / 365 = year at *
  have noCycle : 365 * year + year / 4 - year / 100 = yearStart year := by
    unfold yearStart
    omega
  rw [noCycle]
  have short : dayOfEra - yearStart year ≤ 365 := by
    have length := yearStart_succ year
    split at length <;> omega
  obtain ⟨monthBound, monthBegan, monthEnds⟩ := monthStart_le_lt (by omega) short
  generalize (5 * (dayOfEra - yearStart year) + 2) / 153 = month at *
  let march : FromMarch :=
    ⟨era, year, month, dayOfEra - yearStart year - monthStart month, yearBound, monthBound,
      by omega, by omega⟩
  refine ⟨march, ?_, ?_⟩
  · by_cases early : month < 10
    · simp only [FromMarch.calendar, march, if_pos early]
      rw [if_neg (by omega)]
      rfl
    · simp only [FromMarch.calendar, march, if_neg early]
      rw [if_pos (by omega)]
      rfl
  · simp only [FromMarch.number, march, Int.mul_comm era]
    omega

@[simp] theorem toDays_ofDays (days : Int) : (ofDays days).toDays = days := by
  obtain ⟨march, same, number⟩ := ofDays_eq_calendar days
  rw [same, march.toDays_calendar, number]

@[simp] theorem exists?_ofDays (days : Int) : (ofDays days).exists? = true := by
  obtain ⟨march, same, -⟩ := ofDays_eq_calendar days
  rw [same, march.exists?_calendar]

/-! ## The year of a day -/

private theorem yearStart_mono {first second : Int} (ordered : first ≤ second) :
    yearStart first ≤ yearStart second := by
  unfold yearStart
  omega

private theorem yearStart_add_eras (year era : Int) :
    yearStart (year + era * 400) = era * eraLength + yearStart year := by
  unfold yearStart eraLength
  omega

private theorem toDays_newYear (year : Int) :
    toDays ⟨year, 1, 1⟩ = yearStart (year - 1) + 306 - epochOffset := by
  simp only [toDays, yearStart, eraLength]
  omega

theorem le_year_ofDays_iff {year days : Int} :
    year ≤ (ofDays days).year ↔ toDays ⟨year, 1, 1⟩ ≤ days := by
  obtain ⟨march, same, rfl⟩ := ofDays_eq_calendar days
  obtain ⟨era, inEra, month, day, _, monthBound, dayBound, dayOfYearBound⟩ := march
  rw [same, toDays_newYear]
  simp only [FromMarch.calendar, FromMarch.number]
  have counted := yearStart_add_eras inEra era
  have next := yearStart_add_eras (inEra + 1) era
  rw [Int.add_right_comm] at next
  generalize inEra + era * 400 = current at *
  unfold monthStart at dayBound dayOfYearBound ⊢
  rcases Int.lt_trichotomy current (year - 1) with early | rfl | late
  · have passed := yearStart_mono (show current + 1 ≤ year - 1 by omega)
    split <;> omega
  · split <;> omega
  · have passed := yearStart_mono (show year ≤ current by omega)
    have length := yearStart_succ (year - 1)
    rw [Int.sub_add_cancel] at length
    split at length <;> split <;> omega

end Date

end GraphqlStore
