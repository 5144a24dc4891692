import PagePress.Instant
import PagePress.Proofs.Calendar
import PagePress.Proofs.Number
import PagePress.Proofs.Number.Nearest
import PagePress.Yaml.Moment

/-!
The instant of a clock reading. The digits of a number with zeros in front have a known length and the value of
the number (`decimalValue_padded`), so a moment of UTC that is written with its milliseconds is taken apart again
(`read?_written`) and read as what it is (`value_written`). The time stamp of a reading is there for all years that
can be written (`isSome_isoTimestamp?`) and tells the instant down to the milliseconds
(`instantOf?_isoTimestamp?`). The floating-point milliseconds are rounded twice before their fraction is dropped;
for several decades around the present this loses nothing, so that they are the milliseconds of the stamp
(`epochMillis_of_stamp`).
-/

namespace PagePress

/-! ### Digits -/

namespace Calendar

open Number

theorem length_padded {width n : Nat} (hwidth : 0 < width) (h : n < 10 ^ width) :
    (padded width n).length = width := by
  have hlength := (Nat.length_toDigits_le_iff (b := 10) (by decide) hwidth).2 h
  unfold padded padZeros
  rw [List.length_append, List.length_replicate]
  omega

theorem isDigit_of_mem_padded {width n : Nat} {c : Char} (h : c ∈ padded width n) : c.isDigit = true := by
  unfold padded padZeros at h
  rcases List.mem_append.1 h with h | h
  · rw [List.eq_of_mem_replicate h]
    rfl
  · exact Nat.isDigit_of_mem_toDigits (by decide) (by decide) h

theorem decimalValue_padded_zeros (width n k : Nat) :
    decimalValue (padded width n ++ List.replicate k '0') = 10 ^ k * n := by
  have hdigits : ∀ c ∈ padded width n ++ List.replicate k '0', c.isDigit = true := by
    intro c hc
    rcases List.mem_append.1 hc with hc | hc
    · exact isDigit_of_mem_padded hc
    · rw [List.eq_of_mem_replicate hc]
      rfl
  rw [decimalValue_of_digits hdigits, Nat.ofDigitChars_append, Nat.ofDigitChars_replicate_zero]
  unfold padded padZeros
  rw [Nat.ofDigitChars_append, Nat.ofDigitChars_replicate_zero, Nat.mul_zero, Nat.ofDigitChars_ten_toDigits]

theorem decimalValue_padded (width n : Nat) : decimalValue (padded width n) = n := by
  simpa using decimalValue_padded_zeros width n 0

end Calendar

/-! ### The parts of a moment -/

namespace Yaml

open Calendar Number

theorem takeDigits?_append {least most : Nat} {ds rest : List Char} (hdigits : ∀ c ∈ ds, c.isDigit = true)
    (hrest : ∀ c ∈ rest.head?, c.isDigit = false) (hleast : least ≤ ds.length) (hmost : ds.length ≤ most) :
    takeDigits? least most (ds ++ rest) = some (ds, rest) := by
  have hstop : rest.takeWhile Char.isDigit = [] := by
    cases rest with
    | nil => rfl
    | cons c rest => exact List.takeWhile_cons_of_neg (by simp [hrest c rfl])
  unfold takeDigits?
  rw [List.takeWhile_append_of_pos hdigits, hstop, List.append_nil, List.take_of_length_le hmost]
  simp only [if_pos hleast, List.drop_left]

theorem takeDigits?_padded {least most width n : Nat} {rest : List Char} (hwidth : 0 < width)
    (hn : n < 10 ^ width) (hrest : ∀ c ∈ rest.head?, c.isDigit = false) (hleast : least ≤ width)
    (hmost : width ≤ most) : takeDigits? least most (padded width n ++ rest) = some (padded width n, rest) := by
  have hlength := length_padded hwidth hn
  exact takeDigits?_append (fun c hc => isDigit_of_mem_padded hc) hrest (by omega) (by omega)

theorem takeDigits?_two {least : Nat} (hleast : least ≤ 2) {n : Nat} (hn : n < 10 ^ 2) {c : Char}
    (hc : c.isDigit = false) (rest : List Char) :
    takeDigits? least 2 (padded 2 n ++ c :: rest) = some (padded 2 n, c :: rest) := by
  refine takeDigits?_padded (by decide) hn ?_ hleast (by decide)
  rintro d ⟨⟩
  exact hc

theorem drop?_cons (c : Char) (rest : List Char) : drop? c (c :: rest) = some rest := if_pos rfl

/-- A time that is written with its milliseconds and the mark of UTC is read part by part. -/
theorem readTime?_written {hour minute second : Nat} (ms : Nat) (hhour : hour < 10 ^ 2)
    (hminute : minute < 10 ^ 2) (hsecond : second < 10 ^ 2) :
    readTime? ('T' :: (padded 2 hour ++ ':' :: (padded 2 minute ++ ':' :: (padded 2 second ++
      '.' :: (padded 3 ms ++ ['Z']))))) =
      some ⟨padded 2 hour, padded 2 minute, padded 2 second, padded 3 ms, some ['Z']⟩ := by
  have hmark : ∀ rest, dropTimeMark? ('T' :: rest) = some rest := fun _ => rfl
  have hfraction : (padded 3 ms ++ ['Z']).takeWhile Char.isDigit = padded 3 ms ∧
      (padded 3 ms ++ ['Z']).dropWhile Char.isDigit = ['Z'] := by
    have hdigits : ∀ c ∈ padded 3 ms, c.isDigit = true := fun c hc => isDigit_of_mem_padded hc
    rw [List.takeWhile_append_of_pos hdigits, List.dropWhile_append_of_pos hdigits]
    exact ⟨List.append_nil _, rfl⟩
  have hhour' := takeDigits?_two (by decide : 1 ≤ 2) hhour (c := ':') rfl
  have hminute' := takeDigits?_two (Nat.le_refl 2) hminute (c := ':') rfl
  have hsecond' := takeDigits?_two (Nat.le_refl 2) hsecond (c := '.') rfl
  unfold readTime?
  simp only [hmark, hhour', hminute', hsecond', hfraction, drop?_cons, Option.bind_eq_bind, Option.bind_some]
  rfl

/-- A moment that is written so is read part by part. -/
theorem read?_written {date : Date} {hour minute second : Nat} (ms : Nat) (hyear : date.year < 10 ^ 4)
    (hmonth : date.month < 10 ^ 2) (hday : date.day < 10 ^ 2) (hhour : hour < 10 ^ 2)
    (hminute : minute < 10 ^ 2) (hsecond : second < 10 ^ 2) :
    WrittenMoment.read? (date.text ++ 'T' :: padded 2 hour ++ ':' :: padded 2 minute ++ ':' :: padded 2 second ++
      '.' :: padded 3 ms ++ ['Z']) =
      some ⟨padded 4 date.year, padded 2 date.month, padded 2 date.day,
        some ⟨padded 2 hour, padded 2 minute, padded 2 second, padded 3 ms, some ['Z']⟩⟩ := by
  have hyear' : ∀ rest, takeDigits? 4 4 (padded 4 date.year ++ '-' :: rest) =
      some (padded 4 date.year, '-' :: rest) := by
    intro rest
    exact takeDigits?_padded (by decide) hyear (by rintro c ⟨⟩; rfl) (by decide) (by decide)
  have hmonth' := takeDigits?_two (by decide : 1 ≤ 2) hmonth (c := '-') rfl
  have hday' := takeDigits?_two (by decide : 1 ≤ 2) hday (c := 'T') rfl
  have htime := readTime?_written ms hhour hminute hsecond
  simp only [Date.text, List.append_assoc, List.cons_append]
  unfold WrittenMoment.read?
  simp only [hyear', hmonth', hday', htime, drop?_cons, Option.bind_eq_bind, Option.bind_some,
    List.isEmpty_cons, Bool.false_eq_true, if_false]
  rfl

theorem microseconds_padded {ms : Nat} (h : ms < 10 ^ 3) : microseconds (padded 3 ms) = ms * 1000 := by
  have hlength := length_padded (by decide) h
  have hvalue : decimalValue (padded 3 ms ++ List.replicate (6 - 3) '0') = 10 ^ 3 * ms :=
    decimalValue_padded_zeros 3 ms 3
  unfold microseconds
  simp only [List.take_of_length_le (by omega : (padded 3 ms).length ≤ 6),
    List.drop_of_length_le (by omega : (padded 3 ms).length ≤ 6), hlength, List.head?_nil, Option.any_none,
    Bool.false_eq_true, if_false]
  omega

/-- What is written so is the moment itself, if the calendar has it. -/
theorem value_written {date : Date} {hour minute second ms : Nat} (hdate : date.check = .ok ())
    (hhour : hour < 24) (hminute : minute < 60) (hsecond : second < 60) (hms : ms < 10 ^ 3) :
    WrittenMoment.value ⟨padded 4 date.year, padded 2 date.month, padded 2 date.day,
        some ⟨padded 2 hour, padded 2 minute, padded 2 second, padded 3 ms, some ['Z']⟩⟩ =
      .ok (.moment ⟨date, ⟨hour, minute, second, ms * 1000⟩, some ⟨0, "Z"⟩⟩) := by
  have htime : Time.check ⟨hour, minute, second, ms * 1000⟩ = .ok () := by
    unfold Time.check
    dsimp only
    rw [if_neg (by omega), if_neg (by omega), if_neg (by omega)]
  have hzone : zoneOf ['Z'] = ⟨0, "Z"⟩ := by decide
  have hsmall : ms * 1000 < 1000000 := by omega
  have hmoment : Moment.check ⟨date, ⟨hour, minute, second, ms * 1000⟩, some ⟨0, "Z"⟩⟩ = .ok () := by
    unfold Moment.check
    simp only [hdate, htime, Option.map_some, Option.getD_some]
    rfl
  unfold WrittenMoment.value
  simp only [decimalValue_padded, microseconds_padded hms, if_pos hsmall, Option.map_some, hzone, hmoment]
  rfl

end Yaml

open Calendar Number

/-! ### Time stamps -/

/-- The instant of a reading lies in one of the years that can be written. -/
def ClockReading.InRange (c : ClockReading) : Prop :=
  ClockReading.microseconds { year := 1, month := 1, day := 1 } ≤ c.microseconds ∧
    c.microseconds < ClockReading.microseconds { year := maxYear + 1, month := 1, day := 1 }

instance (c : ClockReading) : Decidable c.InRange :=
  inferInstanceAs (Decidable (_ ∧ _))

theorem inRange_iff {c : ClockReading} : c.InRange ↔
    1 ≤ (dateFromDays (c.microseconds / 86400000000)).1 ∧
      (dateFromDays (c.microseconds / 86400000000)).1 ≤ maxYear := by
  have hfirst : ClockReading.microseconds { year := 1, month := 1, day := 1 } = -719162 * 86400000000 := by
    decide
  have hend : ClockReading.microseconds { year := maxYear + 1, month := 1, day := 1 } =
      2932897 * 86400000000 := by
    decide
  have hfirst' : daysFromDate 1 1 1 = -719162 := by decide
  have hend' : daysFromDate (maxYear + 1) 1 1 = 2932897 := by decide
  rw [year_dateFromDays_iff, hfirst', hend', ClockReading.InRange, hfirst, hend]
  omega

theorem isSome_isoTimestamp? (c : ClockReading) : (isoTimestamp? c).isSome = true ↔ c.InRange := by
  have hdays : c.microseconds.fdiv 86400000000 = c.microseconds / 86400000000 :=
    Int.fdiv_eq_ediv_of_nonneg _ (by decide)
  rw [inRange_iff]
  unfold isoTimestamp?
  dsimp only
  rw [hdays]
  generalize dateFromDays (c.microseconds / 86400000000) = date
  obtain ⟨year, month, day⟩ := date
  dsimp only
  split
  · rename_i h
    simp at h
    simp
    omega
  · rename_i h
    simp at h
    simp
    omega

/-- A time stamp shows the milliseconds from the epoch to its instant, as a date of the calendar and a time of
the day. -/
theorem exists_isoTimestamp? {c : ClockReading} (hc : c.InRange) :
    ∃ (date : Date) (hour minute second ms : Nat), date.check = .ok () ∧ hour < 24 ∧ minute < 60 ∧ second < 60 ∧
      ms < 10 ^ 3 ∧
      isoTimestamp? c = some (.ofList (date.text ++ 'T' :: padded 2 hour ++ ':' :: padded 2 minute ++
        ':' :: padded 2 second ++ '.' :: padded 3 ms ++ ['Z'])) ∧
      (daysFromDate date.year date.month date.day * 86400 + (Time.mk hour minute second 0).seconds) * 1000 + ms =
        c.microseconds / 1000 := by
  have hdays : c.microseconds.fdiv 86400000000 = c.microseconds / 86400000000 :=
    Int.fdiv_eq_ediv_of_nonneg _ (by decide)
  have hyear := inRange_iff.1 hc
  generalize hdate : dateFromDays (c.microseconds / 86400000000) = date at hyear
  obtain ⟨year, month, day⟩ := date
  have hback := daysFromDate_dateFromDays hdate (by omega)
  have hcheck := check_dateFromDays hdate hyear
  generalize hms : ((c.microseconds - c.microseconds / 86400000000 * 86400000000) / 1000).toNat = ms
  refine ⟨⟨year.toNat, month, day⟩, ms / 3600000, ms / 60000 % 60, ms / 1000 % 60, ms % 1000, hcheck, by omega,
    by omega, by omega, by omega, ?_, ?_⟩
  · unfold isoTimestamp?
    simp only [hdays, hdate, hms]
    rw [if_neg (by simp; omega)]
  · simp only [hback, Time.seconds]
    omega

/-- The microseconds from the epoch to the moment that a text tells. -/
def instantOf? (stamp : String) : Option Int :=
  match (Yaml.WrittenMoment.read? stamp.toList).map Yaml.WrittenMoment.value with
  | some (.ok (.moment m)) => some (m.seconds * 1000000 + m.time.microsecond)
  | _ => none

/-- The stamp of a reading tells its instant, less the microseconds beyond the last full millisecond. -/
theorem instantOf?_isoTimestamp? {c : ClockReading} (hc : c.InRange) :
    (isoTimestamp? c).bind instantOf? = some (1000 * (c.microseconds / 1000)) := by
  obtain ⟨date, hour, minute, second, ms, hdate, hhour, hminute, hsecond, hms, hstamp, hinstant⟩ :=
    exists_isoTimestamp? hc
  obtain ⟨⟨-, hyear⟩, ⟨-, hmonth⟩, -, hday⟩ := check_eq_ok.1 hdate
  have hyear' : date.year < 10 ^ 4 := Nat.lt_of_le_of_lt hyear (by decide)
  have hmonth' : date.month < 10 ^ 2 := by omega
  have hday' : date.day < 10 ^ 2 := by
    have := daysIn_le date.year date.month
    omega
  have hread := Yaml.read?_written ms hyear' hmonth' hday'
    (by omega : hour < 10 ^ 2) (by omega : minute < 10 ^ 2) (by omega : second < 10 ^ 2)
  have hvalue := Yaml.value_written hdate hhour hminute hsecond hms
  rw [hstamp, Option.bind_some, instantOf?, String.toList_ofList, hread, Option.map_some, hvalue]
  simp only [Moment.seconds, Time.seconds, Option.map_some, Option.getD_some] at hinstant ⊢
  refine congrArg some ?_
  rw [← hinstant]
  push_cast
  omega

/-! ### Milliseconds in floating point -/

open Binary64

/-- From `2 ^ 30` to `2 ^ 31` seconds, the floating-point seconds are multiples of `2 ^ -22`. -/
theorem timestamp_of_range {n : Nat} (hlower : 2 ^ 30 * 1000000 ≤ n) (hupper : n < 2 ^ 31 * 1000000) :
    timestamp n = .finite false (roundHalfEven (n * 2 ^ 22) 1000000) (-22) := by
  have hsign : decide ((n : Int) < 0) = false := by simp
  unfold timestamp
  rw [hsign, Int.natAbs_natCast]
  exact ofRatio_of_scaled (k := 22) false (by decide) (by decide) (by omega) (by omega)

/-- From `2 ^ 40` to `2 ^ 41`, a thousand times such a number is a multiple of `2 ^ -12`. -/
theorem mulNat_thousand {m : Nat} (hlower : 2 ^ 62 ≤ 1000 * m) (hupper : 1000 * m + 512 < 2 ^ 63) :
    mulNat 1000 (.finite false m (-22)) = .finite false (roundHalfEven (1000 * m * 2 ^ 12) (2 ^ 22)) (-12) := by
  have hscaled : mulNat 1000 (.finite false m (-22)) = ofRatio false (1000 * m) (2 ^ 22) := rfl
  rw [hscaled]
  exact ofRatio_of_scaled (k := 12) false (by decide) (by decide) (by omega) (by omega)

/-- The error of the seconds is at most `2 ^ -23`, so that of the milliseconds is less than half the step at
their size: a whole millisecond is not lost, and none is gained. -/
theorem epochMillis_of_range {c : ClockReading} (hlower : 2 ^ 40 * 1000 ≤ c.microseconds)
    (hupper : c.microseconds < 2 ^ 31 * 1000000) : epochMillis c = c.microseconds / 1000 := by
  obtain ⟨n, hn⟩ := Int.eq_ofNat_of_zero_le (a := c.microseconds) (by omega)
  rw [hn] at hlower hupper
  have hseconds := roundHalfEven_bounds (n * 2 ^ 22) (by decide : 0 < 1000000)
  generalize hm : roundHalfEven (n * 2 ^ 22) 1000000 = m at hseconds
  have hmillis := roundHalfEven_bounds (1000 * m * 2 ^ 12) (by decide : 0 < 2 ^ 22)
  have htruncate : ∀ k : Nat, truncate? (.finite false k (-12)) = some ((k / 2 ^ 12 : Nat) : Int) := fun _ => rfl
  unfold epochMillis
  rw [hn, timestamp_of_range (by omega) (by omega), hm, mulNat_thousand (by omega) (by omega), htruncate,
    Option.getD_some]
  generalize roundHalfEven (1000 * m * 2 ^ 12) (2 ^ 22) = k at hmillis
  -- `k` is whole and off from `4096 * n / 1000` by less than one, so it stays between the same multiples of `4096`
  omega

/-- From 2005 to the 18th of January 2038, in any time zone, the milliseconds of a reading are the full
milliseconds from the epoch to its instant, and these are what the time stamp tells. -/
theorem epochMillis_of_stamp {c : ClockReading}
    (hfirst : ClockReading.microseconds { year := 2005, month := 1, day := 1 } ≤ c.microseconds)
    (hlast : c.microseconds < ClockReading.microseconds { year := 2038, month := 1, day := 19 }) :
    epochMillis c = c.microseconds / 1000 ∧
      (isoTimestamp? c).bind instantOf? = some (1000 * epochMillis c) := by
  have hfirst' : ClockReading.microseconds { year := 2005, month := 1, day := 1 } = 1104537600000000 := by
    decide
  have hlast' : ClockReading.microseconds { year := 2038, month := 1, day := 19 } = 2147472000000000 := by
    decide
  rw [hfirst'] at hfirst
  rw [hlast'] at hlast
  have hrange : c.InRange := by
    have hyear : ClockReading.microseconds { year := 1, month := 1, day := 1 } ≤ 0 := by decide
    have hend : 2147472000000000 ≤ ClockReading.microseconds { year := maxYear + 1, month := 1, day := 1 } := by
      decide
    exact ⟨by omega, by omega⟩
  have hmillis : epochMillis c = c.microseconds / 1000 := epochMillis_of_range (by omega) (by omega)
  rw [hmillis]
  exact ⟨rfl, instantOf?_isoTimestamp? hrange⟩

/-- The last microsecond before the 19th of January 2038, told by a clock five hours behind UTC. -/
def lastClock : ClockReading where
  year := 2038
  month := 1
  day := 18
  hour := 18
  minute := 59
  second := 59
  microsecond := 999999
  offset := some (-18000)

/-- The milliseconds of this reading are not rounded up. -/
theorem epochMillis_lastClock :
    ClockReading.microseconds { year := 2005, month := 1, day := 1 } ≤ lastClock.microseconds ∧
      lastClock.microseconds < ClockReading.microseconds { year := 2038, month := 1, day := 19 } ∧
      epochMillis lastClock = 2147471999999 ∧
      (isoTimestamp? lastClock).bind instantOf? = some (1000 * 2147471999999) := by
  have hfirst : ClockReading.microseconds { year := 2005, month := 1, day := 1 } ≤ lastClock.microseconds := by
    decide
  have hlast : lastClock.microseconds < ClockReading.microseconds { year := 2038, month := 1, day := 19 } := by
    decide
  have hmicros : lastClock.microseconds / 1000 = 2147471999999 := by decide
  obtain ⟨hmillis, hstamp⟩ := epochMillis_of_stamp hfirst hlast
  rw [hmicros] at hmillis
  rw [hmillis] at hstamp
  exact ⟨hfirst, hlast, hmillis, hstamp⟩

end PagePress
