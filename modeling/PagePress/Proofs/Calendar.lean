import PagePress.Calendar

/-!
Days and dates. A day is told by the era of 400 years that it falls into, the year of the era and the day
of that year, where years begin in March (`exists_reckoning`). So the date of a day is one that the calendar
has (`check_dateFromDays`), counting the days up to it leads back (`daysFromDate_dateFromDays`), and it has
one of the years that can be written for the days of these years only (`year_dateFromDays_iff`).
-/

namespace PagePress.Calendar

/-! ### Years of an era -/

/-- The year that a day of an era falls into. -/
def yearOfEra (day : Int) : Int := (day - day / 1460 + day / 36524 - day / 146096) / 365

/-- The days of an era before one of its years. -/
def daysBefore (year : Int) : Int := 365 * year + year / 4 - year / 100

/-- A day is counted by centuries, by cycles of four years, by years and by days. Only the last year of a
cycle has 366 days, and in the last cycle of a century it has not. -/
theorem exists_cycles {d : Int} (h0 : 0 ≤ d) (h1 : d < 146096) :
    ∃ century cycle year day : Int, d = 36524 * century + 1461 * cycle + 365 * year + day ∧
      (0 ≤ century ∧ century ≤ 3) ∧ (0 ≤ cycle ∧ cycle ≤ 24) ∧ (0 ≤ year ∧ year ≤ 3) ∧
      (0 ≤ day ∧ day ≤ 365) ∧ (day = 365 → year = 3 ∧ cycle ≤ 23) := by
  refine ⟨d / 36524, d % 36524 / 1461, min (d % 36524 % 1461 / 365) 3,
    d % 36524 % 1461 - 365 * min (d % 36524 % 1461 / 365) 3, ?_, ?_, ?_, ?_, ?_, ?_⟩ <;> omega

theorem yearOfEra_cycles {century cycle year day : Int} (hcentury : 0 ≤ century ∧ century ≤ 3)
    (hcycle : 0 ≤ cycle ∧ cycle ≤ 24) (hyear : 0 ≤ year ∧ year ≤ 3) (hday : 0 ≤ day ∧ day ≤ 365)
    (hlast : day = 365 → year = 3 ∧ cycle ≤ 23) :
    yearOfEra (36524 * century + 1461 * cycle + 365 * year + day) = 100 * century + 4 * cycle + year := by
  -- the days are counted out in years of 365 days, and these three quotients are the leap days
  have hleap : (36524 * century + 1461 * cycle + 365 * year + day) / 1460 =
      25 * century + cycle + (24 * century + cycle + 365 * year + day) / 1460 := by
    omega
  have hcommon : (36524 * century + 1461 * cycle + 365 * year + day) / 36524 = century := by
    omega
  have hlast : (36524 * century + 1461 * cycle + 365 * year + day) / 146096 = 0 := by
    omega
  unfold yearOfEra
  rw [hleap, hcommon, hlast]
  omega

/-- A day of an era lies in its year, whose first day is the first of March. The 366th day is there
only if the February at its end has 29 days. -/
theorem yearOfEra_bounds {d : Int} (h0 : 0 ≤ d) (h1 : d < 146097) :
    0 ≤ yearOfEra d ∧ yearOfEra d < 400 ∧
      0 ≤ d - daysBefore (yearOfEra d) ∧ d - daysBefore (yearOfEra d) ≤ 365 ∧
      (d - daysBefore (yearOfEra d) = 365 → (yearOfEra d + 1) % 4 = 0 ∧
        ((yearOfEra d + 1) % 100 = 0 → yearOfEra d + 1 = 400)) := by
  by_cases hlast : d = 146096
  · subst hlast
    decide
  · obtain ⟨century, cycle, year, day, rfl, hcentury, hcycle, hyear, hday, hleap⟩ :=
      exists_cycles h0 (by omega)
    have hquarter : (100 * century + 4 * cycle + year) / 4 = 25 * century + cycle := by omega
    have hcentury' : (100 * century + 4 * cycle + year) / 100 = century := by omega
    rw [yearOfEra_cycles hcentury hcycle hyear hday hleap, daysBefore, hquarter, hcentury']
    omega

/-! ### Dates -/

/-- The date of a day of a year of an era. -/
def dateOf (era year day : Int) : Int × Nat × Nat :=
  let shifted := (5 * day + 2) / 153
  let month := if shifted < 10 then shifted + 3 else shifted - 9
  (year + 400 * era + (if month ≤ 2 then 1 else 0), month.toNat,
    (day - (153 * shifted + 2) / 5 + 1).toNat)

/-- Every day has its place in a year of an era, and its date is the one of this place. -/
theorem exists_reckoning (days : Int) : ∃ era year day : Int,
    days + 719468 = 146097 * era + daysBefore year + day ∧ (0 ≤ year ∧ year < 400) ∧
      (0 ≤ day ∧ day ≤ 365) ∧
      (day = 365 → (year + 1) % 4 = 0 ∧ ((year + 1) % 100 = 0 → year + 1 = 400)) ∧
      dateFromDays days = dateOf era year day := by
  have hera : (days + 719468).fdiv 146097 = (days + 719468) / 146097 :=
    Int.fdiv_eq_ediv_of_nonneg _ (by omega)
  obtain ⟨h1, h2, h3, h4, h5⟩ :=
    yearOfEra_bounds (d := days + 719468 - 146097 * ((days + 719468) / 146097)) (by omega) (by omega)
  refine ⟨(days + 719468) / 146097, _, _, ?_, ⟨h1, h2⟩, ⟨h3, h4⟩, h5, ?_⟩
  · omega
  · unfold dateFromDays
    simp only [hera]
    rfl

theorem daysIn_le (year month : Nat) : daysIn year month ≤ 31 := by
  unfold daysIn
  split
  · split <;> omega
  · split <;> omega

theorem check_eq_ok {d : Date} : d.check = .ok () ↔ (1 ≤ d.year ∧ d.year ≤ maxYear) ∧
    (1 ≤ d.month ∧ d.month ≤ 12) ∧ 1 ≤ d.day ∧ d.day ≤ daysIn d.year d.month := by
  unfold Date.check
  simp only [Bool.or_eq_true, decide_eq_true_eq]
  constructor
  · intro h
    split at h
    · cases h
    · split at h
      · cases h
      · split at h
        · cases h
        · omega
  · intro h
    rw [if_neg (by omega), if_neg (by omega), if_neg (by omega)]

/-- The calendar has the date of every place in an era, as far as its years go. -/
theorem check_dateOf {era year day : Int} (hday : 0 ≤ day ∧ day ≤ 365)
    (hleap : day = 365 → (year + 1) % 4 = 0 ∧ ((year + 1) % 100 = 0 → year + 1 = 400)) {y : Int} {m d : Nat}
    (hdate : dateOf era year day = (y, m, d)) (hy : 1 ≤ y ∧ y ≤ maxYear) :
    Date.check ⟨y.toNat, m, d⟩ = .ok () := by
  have hmonth : (5 * day + 2) / 153 ∈ [0, 1, 2, 3, 4, 5, 6, 7, 8, 9, 10, 11] := by
    simp only [List.mem_cons, List.not_mem_nil, or_false]
    omega
  rw [check_eq_ok]
  generalize hs : (5 * day + 2) / 153 = shifted at hmonth
  simp only [dateOf, hs, Prod.mk.injEq] at hdate
  obtain ⟨rfl, rfl, rfl⟩ := hdate
  simp only [List.mem_cons, List.not_mem_nil, or_false] at hmonth
  dsimp only
  refine ⟨by omega, by omega, ?_⟩
  -- one case for each month from March on; only the length of February depends on the year
  rcases hmonth with rfl | rfl | rfl | rfl | rfl | rfl | rfl | rfl | rfl | rfl | rfl | rfl
  case inr.inr.inr.inr.inr.inr.inr.inr.inr.inr.inr =>
    simp [daysIn]
    split <;> omega
  all_goals
    simp [daysIn]
    omega

/-- The months from March on are those of the year that the era counts. -/
theorem dateOf_of_lt {era year day : Int} (hday : 0 ≤ day) (h : (5 * day + 2) / 153 < 10) :
    dateOf era year day = (year + 400 * era, ((5 * day + 2) / 153 + 3).toNat,
      (day - (153 * ((5 * day + 2) / 153) + 2) / 5 + 1).toNat) := by
  have hmonth : ¬ (5 * day + 2) / 153 + 3 ≤ 2 := by omega
  unfold dateOf
  simp only [if_pos h, if_neg hmonth, Int.add_zero]

/-- January and February belong to the next year. -/
theorem dateOf_of_le {era year day : Int} (hday : day ≤ 365) (h : 10 ≤ (5 * day + 2) / 153) :
    dateOf era year day = (year + 400 * era + 1, ((5 * day + 2) / 153 - 9).toNat,
      (day - (153 * ((5 * day + 2) / 153) + 2) / 5 + 1).toNat) := by
  have hmonth : (5 * day + 2) / 153 - 9 ≤ 2 := by omega
  unfold dateOf
  simp only [if_neg (Int.not_lt.2 h), if_pos hmonth]

theorem daysFromDate_of_lt {year month : Nat} (day : Nat) (h : 2 < month) : daysFromDate year month day =
    365 * (year : Int) + (year : Int) / 4 - (year : Int) / 100 + (year : Int) / 400 +
      (153 * ((month : Int) - 3) + 2) / 5 + ((day : Int) - 1) - 719468 := by
  have hdiv : ∀ a b : Int, 0 ≤ b → a.fdiv b = a / b := fun a _ hb => Int.fdiv_eq_ediv_of_nonneg a hb
  unfold daysFromDate
  simp only [if_neg (Nat.not_le.2 h), hdiv _ 4 (by decide), hdiv _ 100 (by decide), hdiv _ 400 (by decide),
    hdiv _ 5 (by decide)]

theorem daysFromDate_of_le {year month : Nat} (day : Nat) (h : month ≤ 2) : daysFromDate year month day =
    365 * ((year : Int) - 1) + ((year : Int) - 1) / 4 - ((year : Int) - 1) / 100 + ((year : Int) - 1) / 400 +
      (153 * ((month : Int) + 9) + 2) / 5 + ((day : Int) - 1) - 719468 := by
  have hdiv : ∀ a b : Int, 0 ≤ b → a.fdiv b = a / b := fun a _ hb => Int.fdiv_eq_ediv_of_nonneg a hb
  unfold daysFromDate
  simp only [if_pos h, hdiv _ 4 (by decide), hdiv _ 100 (by decide), hdiv _ 400 (by decide),
    hdiv _ 5 (by decide)]

/-- The days up to the date of a place are those of its era, of the years before it, and its own. -/
theorem daysFromDate_dateOf {era year day : Int} (hyear : 0 ≤ year ∧ year < 400)
    (hday : 0 ≤ day ∧ day ≤ 365) {y : Int} {m d : Nat} (hdate : dateOf era year day = (y, m, d))
    (hy : 0 ≤ y) : daysFromDate y.toNat m d = 146097 * era + daysBefore year + day - 719468 := by
  have hquarter : (year + 400 * era) / 4 = year / 4 + 100 * era := by omega
  have hcentury : (year + 400 * era) / 100 = year / 100 + 4 * era := by omega
  have hera : (year + 400 * era) / 400 = era := by omega
  unfold daysBefore
  rcases Int.lt_or_le ((5 * day + 2) / 153) 10 with h | h
  · rw [dateOf_of_lt hday.1 h] at hdate
    simp only [Prod.mk.injEq] at hdate
    obtain ⟨rfl, rfl, rfl⟩ := hdate
    rw [daysFromDate_of_lt _ (by omega), Int.toNat_of_nonneg hy, hquarter, hcentury, hera]
    omega
  · rw [dateOf_of_le hday.2 h] at hdate
    simp only [Prod.mk.injEq] at hdate
    obtain ⟨rfl, rfl, rfl⟩ := hdate
    rw [daysFromDate_of_le _ (by omega), Int.toNat_of_nonneg hy, Int.add_sub_cancel, hquarter, hcentury, hera]
    omega

/-! ### The date of a day -/

/-- The calendar has the date of every day of its years. -/
theorem check_dateFromDays {days y : Int} {m d : Nat} (h : dateFromDays days = (y, m, d))
    (hy : 1 ≤ y ∧ y ≤ maxYear) : Date.check ⟨y.toNat, m, d⟩ = .ok () := by
  obtain ⟨era, year, day, -, -, hday, hleap, hdate⟩ := exists_reckoning days
  exact check_dateOf hday hleap (hdate.symm.trans h) hy

/-- Counting the days up to the date of a day leads back to the day. -/
theorem daysFromDate_dateFromDays {days y : Int} {m d : Nat} (h : dateFromDays days = (y, m, d))
    (hy : 0 ≤ y) : daysFromDate y.toNat m d = days := by
  obtain ⟨era, year, day, hdays, hyear, hday, -, hdate⟩ := exists_reckoning days
  rw [daysFromDate_dateOf hyear hday (hdate.symm.trans h) hy]
  omega

/-- The days of the years that can be written. -/
theorem year_dateFromDays_iff (days : Int) :
    (1 ≤ (dateFromDays days).1 ∧ (dateFromDays days).1 ≤ maxYear) ↔
      daysFromDate 1 1 1 ≤ days ∧ days < daysFromDate (maxYear + 1) 1 1 := by
  have hfirst : daysFromDate 1 1 1 = -719162 := by decide
  have hend : daysFromDate (maxYear + 1) 1 1 = 2932897 := by decide
  have hmax : (maxYear : Int) = 9999 := rfl
  obtain ⟨era, year, day, hdays, hyear, hday, -, hdate⟩ := exists_reckoning days
  rw [hdate, hfirst, hend, hmax]
  unfold daysBefore at hdays
  rcases Int.lt_or_le ((5 * day + 2) / 153) 10 with h | h
  · rw [dateOf_of_lt hday.1 h]
    dsimp only
    omega
  · rw [dateOf_of_le hday.2 h]
    dsimp only
    omega

end PagePress.Calendar
