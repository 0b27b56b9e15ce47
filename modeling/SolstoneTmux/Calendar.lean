import SolstoneTmux.Foundations.Text
import SolstoneTmux.Time

/-!
# Local dates and times

The rest of the `time` crate that naming a segment uses. A `Date` is the number of its day; its year,
month and day are those of the proleptic Gregorian calendar, computed from years that begin on
1 March, so that a leap day is the last day of its year. A local time is a date and a whole second
of it, and `next` is the second after it, carried over the minute, the hour and the day.
-/

namespace SolstoneTmux

open Foundations

/-! ## Years that begin in March -/

/-- The days before a year, counted from 1 March of the year 0. -/
def daysBeforeYear (year : ℤ) : ℤ := 365 * year + year / 4 - year / 100 + year / 100 / 4

/-- The year of a day, counted from 1 March of the year 0. -/
def yearOf (day : ℤ) : ℤ :=
  let year := 400 * day / 146097
  if day < daysBeforeYear year then year - 1
  else if daysBeforeYear (year + 1) ≤ day then year + 1
  else year

theorem daysBeforeYear_yearOf (day : ℤ) :
    daysBeforeYear (yearOf day) ≤ day ∧ day < daysBeforeYear (yearOf day + 1) := by
  have hle := Int.mul_ediv_self_le (x := 400 * day) (k := 146097) (by decide)
  have hlt := Int.lt_mul_ediv_self_add (x := 400 * day) (k := 146097) (by decide)
  unfold yearOf
  generalize 400 * day / 146097 = year at hle hlt
  dsimp only
  split
  · rename_i hbefore
    rw [Int.sub_add_cancel]
    refine ⟨?_, hbefore⟩
    unfold daysBeforeYear at *
    omega
  · split
    · rename_i hafter
      refine ⟨hafter, ?_⟩
      unfold daysBeforeYear at *
      omega
    · omega

theorem daysBeforeYear_succ_le (year : ℤ) :
    daysBeforeYear (year + 1) ≤ daysBeforeYear year + 366 := by
  unfold daysBeforeYear
  omega

/-! ## Dates -/

/-- The days from 1 January −9999 to 31 December 9999, counted from 1 January 1970. -/
def validDayNumber (day : ℤ) : Bool := -4371587 ≤ day && day ≤ 2932896

/-- `Date`, as the number of its day. -/
structure CalendarDate where
  dayNumber : ℤ
  valid : validDayNumber dayNumber = true
  deriving DecidableEq

namespace CalendarDate

/-- The day, counted from 1 March of the year 0. -/
def marchDay (date : CalendarDate) : ℤ := date.dayNumber + 719468

/-- The year that began on the last 1 March. -/
def marchYear (date : CalendarDate) : ℤ := yearOf date.marchDay

/-- The days since the last 1 March. -/
def dayOfYear (date : CalendarDate) : ℤ := date.marchDay - daysBeforeYear date.marchYear

/-- The months since the last March. -/
def marchMonth (date : CalendarDate) : ℤ := (5 * date.dayOfYear + 2) / 153

/-- `Date::year`. -/
def year (date : CalendarDate) : ℤ :=
  if date.marchMonth < 10 then date.marchYear else date.marchYear + 1

/-- `Date::month`, as a number. -/
def month (date : CalendarDate) : ℕ :=
  (if date.marchMonth < 10 then date.marchMonth + 3 else date.marchMonth - 9).toNat

/-- `Date::day`. -/
def day (date : CalendarDate) : ℕ :=
  (date.dayOfYear - (153 * date.marchMonth + 2) / 5 + 1).toNat

/-- `Date::next_day`. -/
def nextDay (date : CalendarDate) : Option CalendarDate :=
  if h : validDayNumber (date.dayNumber + 1) = true then some ⟨date.dayNumber + 1, h⟩ else none

theorem dayNumber_le (date : CalendarDate) : date.dayNumber ≤ 2932896 := by
  have := date.valid
  simp only [validDayNumber, Bool.and_eq_true, decide_eq_true_eq] at this
  exact this.2

theorem dayOfYear_bounds (date : CalendarDate) : 0 ≤ date.dayOfYear ∧ date.dayOfYear ≤ 365 := by
  have h := daysBeforeYear_yearOf date.marchDay
  have hsucc := daysBeforeYear_succ_le (yearOf date.marchDay)
  unfold dayOfYear marchYear
  omega

theorem marchMonth_bounds (date : CalendarDate) :
    0 ≤ date.marchMonth ∧ date.marchMonth ≤ 11 := by
  have := date.dayOfYear_bounds
  unfold marchMonth
  omega

theorem month_lt (date : CalendarDate) : date.month < 13 := by
  have := date.marchMonth_bounds
  unfold month
  split <;> omega

theorem day_bounds (date : CalendarDate) : 1 ≤ date.day ∧ date.day ≤ 31 := by
  have := date.dayOfYear_bounds
  unfold day marchMonth
  omega

theorem dayOfYear_eq (date : CalendarDate) :
    date.dayOfYear = date.day - 1 + (153 * date.marchMonth + 2) / 5 := by
  have := date.day_bounds
  unfold day at *
  omega

/-- A date is determined by its year, month and day. -/
theorem eq_of_civil {a b : CalendarDate} (hyear : a.year = b.year) (hmonth : a.month = b.month)
    (hday : a.day = b.day) : a = b := by
  have ha := a.marchMonth_bounds
  have hb := b.marchMonth_bounds
  have hmarch : a.marchMonth = b.marchMonth ∧ a.marchYear = b.marchYear := by
    unfold year month at *
    split at hmonth <;> split at hmonth <;> simp_all <;> omega
  have hdays : a.dayOfYear = b.dayOfYear := by
    rw [dayOfYear_eq, dayOfYear_eq, hday, hmarch.1]
  have hnumber : a.dayNumber = b.dayNumber := by
    unfold dayOfYear marchDay at hdays
    rw [hmarch.2] at hdays
    omega
  cases a
  cases b
  simp_all

end CalendarDate

/-! ## Times -/

/-- The parts of a local `OffsetDateTime` down to the second. -/
structure LocalTime where
  date : CalendarDate
  hour : ℕ
  minute : ℕ
  second : ℕ
  hour_lt : hour < 24
  minute_lt : minute < 60
  second_lt : second < 60
  deriving DecidableEq

namespace LocalTime

/-- The whole seconds from the start of 1970 to a local time. -/
def seconds (t : LocalTime) : ℤ :=
  t.date.dayNumber * 86400 + t.hour * 3600 + t.minute * 60 + t.second

/-- The local time after a number of seconds from the start of 1970. -/
def ofSeconds (n : ℤ) : Option LocalTime :=
  if h : validDayNumber (n / 86400) = true then
    some
      { date := ⟨n / 86400, h⟩
        hour := (n % 86400 / 3600).toNat
        minute := (n % 3600 / 60).toNat
        second := (n % 60).toNat
        hour_lt := by omega
        minute_lt := by omega
        second_lt := by omega }
  else none

/-- The second after a local time. It does not exist at the end of the calendar, where the source
panics. -/
def next (t : LocalTime) : Option LocalTime :=
  if h : t.second < 59 then some { t with second := t.second + 1, second_lt := by omega }
  else if h : t.minute < 59 then
    some
      { t with
        minute := t.minute + 1
        second := 0
        minute_lt := by omega
        second_lt := by omega }
  else if h : t.hour < 23 then
    some
      { t with
        hour := t.hour + 1
        minute := 0
        second := 0
        hour_lt := by omega
        minute_lt := by omega
        second_lt := by omega }
  else
    t.date.nextDay.map fun date =>
      { date := date
        hour := 0
        minute := 0
        second := 0
        hour_lt := by omega
        minute_lt := by omega
        second_lt := by omega }

theorem seconds_injective : Function.Injective seconds := by
  rintro ⟨⟨d, hd⟩, h, m, s, hh, hm, hs⟩ ⟨⟨d', hd'⟩, h', m', s', hh', hm', hs'⟩ heq
  simp only [seconds] at heq
  obtain ⟨rfl, rfl, rfl, rfl⟩ : d = d' ∧ h = h' ∧ m = m' ∧ s = s' := by omega
  rfl

theorem seconds_of_ofSeconds {n : ℤ} {t : LocalTime} (h : ofSeconds n = some t) :
    t.seconds = n := by
  unfold ofSeconds at h
  split at h
  · cases h
    simp only [seconds]
    omega
  · cases h

/-- The last second of the calendar. -/
def lastSecond : ℤ := 253402300799

theorem seconds_le_lastSecond (t : LocalTime) : t.seconds ≤ lastSecond := by
  have hday := t.date.dayNumber_le
  have := t.hour_lt
  have := t.minute_lt
  have := t.second_lt
  unfold seconds lastSecond
  omega

/-- `next` is the next second. -/
theorem seconds_next {t u : LocalTime} (h : t.next = some u) : u.seconds = t.seconds + 1 := by
  have := t.hour_lt
  have := t.minute_lt
  have := t.second_lt
  unfold next at h
  split at h
  · cases h
    simp only [seconds]
    omega
  · split at h
    · cases h
      simp only [seconds]
      omega
    · split at h
      · cases h
        simp only [seconds]
        omega
      · obtain ⟨date, hdate, rfl⟩ := Option.map_eq_some_iff.mp h
        unfold CalendarDate.nextDay at hdate
        split at hdate
        · cases hdate
          simp only [seconds]
          omega
        · cases hdate

/-- Only the last second of the calendar has none after it. -/
theorem seconds_of_next_eq_none {t : LocalTime} (h : t.next = none) : t.seconds = lastSecond := by
  have := t.hour_lt
  have := t.minute_lt
  have := t.second_lt
  have hle := t.date.dayNumber_le
  have hvalid := t.date.valid
  unfold next at h
  split at h
  · cases h
  · split at h
    · cases h
    · split at h
      · cases h
      · rw [Option.map_eq_none_iff, CalendarDate.nextDay] at h
        split at h
        · cases h
        · rename_i hinvalid
          simp only [validDayNumber, Bool.and_eq_true, decide_eq_true_eq] at hinvalid hvalid
          simp only [seconds, lastSecond]
          omega

end LocalTime

/-- The whole seconds that a local clock has counted at an instant: `to_offset`, without the part
of a second. -/
def localSeconds (wall : OffsetDateTime) (offset : UtcOffset) : ℤ :=
  wall.unixTimestampNanos / nanosPerSecond + offset.wholeSeconds

/-- `OffsetDateTime::to_offset`, down to the second. The source panics where the local date is
outside the calendar. -/
def OffsetDateTime.toOffset (wall : OffsetDateTime) (offset : UtcOffset) : Option LocalTime :=
  LocalTime.ofSeconds (localSeconds wall offset)

/-! ## Texts -/

/-- `{:02}`. -/
def twoDigits (n : ℕ) : Str := padLeft 2 (decimal n)

/-- `{:04}` of a year. -/
def yearText (year : ℤ) : Str :=
  if year < 0 then '-' :: padLeft 3 (decimal year.natAbs) else padLeft 4 (decimal year.natAbs)

/-- The name of the directory of a day. -/
def CalendarDate.dateStr (date : CalendarDate) : Str :=
  yearText date.year ++ twoDigits date.month ++ twoDigits date.day

/-- The stem that a second gives a segment. -/
def LocalTime.stemStr (t : LocalTime) : Str :=
  twoDigits t.hour ++ twoDigits t.minute ++ twoDigits t.second

theorem digitsValue_padLeft (width n : ℕ) : digitsValue (padLeft width (decimal n)) = n := by
  rw [digitsValue, padLeft, Nat.ofDigitChars_append, Nat.ofDigitChars_replicate_zero, Nat.mul_zero]
  exact digitsValue_decimal n

theorem length_twoDigits : ∀ n < 100, (twoDigits n).length = 2 := by decide

theorem twoDigits_injective : Function.Injective twoDigits := by
  intro m n h
  rw [← digitsValue_padLeft 2 m, ← digitsValue_padLeft 2 n]
  exact congrArg digitsValue h

theorem yearText_injective : Function.Injective yearText := by
  intro a b h
  have hdigit : ∀ (width n : ℕ) (s : Str), '-' :: s ≠ padLeft width (decimal n) := by
    intro width n s heq
    have hmem : '-' ∈ padLeft width (decimal n) := heq ▸ List.mem_cons_self
    have := isDigit_of_mem_padLeft (fun _ hc => isDigit_of_mem_decimal hc) hmem
    exact absurd this (by decide)
  have habs : ∀ (width m n : ℕ), padLeft width (decimal m) = padLeft width (decimal n) → m = n := by
    intro width m n heq
    rw [← digitsValue_padLeft width m, heq, digitsValue_padLeft]
  unfold yearText at h
  split at h
  · split at h
    · have := habs _ _ _ (List.cons.inj h).2
      omega
    · exact absurd h (hdigit _ _ _)
  · split at h
    · exact absurd h.symm (hdigit _ _ _)
    · have := habs _ _ _ h
      omega

/-- Different dates have different directories. -/
theorem CalendarDate.dateStr_injective : Function.Injective CalendarDate.dateStr := by
  intro a b h
  have hmonth (date : CalendarDate) := length_twoDigits date.month (by have := date.month_lt; omega)
  have hday (date : CalendarDate) := length_twoDigits date.day (by have := date.day_bounds; omega)
  unfold dateStr at h
  obtain ⟨h, hd⟩ := List.append_inj' h (by rw [hday, hday])
  obtain ⟨hy, hm⟩ := List.append_inj' h (by rw [hmonth, hmonth])
  exact eq_of_civil (yearText_injective hy) (twoDigits_injective hm) (twoDigits_injective hd)

namespace LocalTime

theorem length_stemStr (t : LocalTime) : t.stemStr.length = 6 := by
  rw [stemStr, List.length_append, List.length_append,
    length_twoDigits _ (t.hour_lt.trans (by decide)),
    length_twoDigits _ (t.minute_lt.trans (by decide)),
    length_twoDigits _ (t.second_lt.trans (by decide))]

theorem isDigit_of_mem_stemStr {t : LocalTime} {c : Char} (h : c ∈ t.stemStr) :
    isDigit c = true := by
  have hdigit : ∀ n, c ∈ twoDigits n → isDigit c = true := fun n hn =>
    isDigit_of_mem_padLeft (fun _ hc => isDigit_of_mem_decimal hc) hn
  rw [stemStr, List.mem_append, List.mem_append] at h
  rcases h with (h | h) | h <;> exact hdigit _ h

/-- A second is determined by its directory and its stem. -/
theorem eq_of_names {t u : LocalTime} (hdate : t.date.dateStr = u.date.dateStr)
    (hstem : t.stemStr = u.stemStr) : t = u := by
  have hlength (n m : ℕ) (hn : n < 60) (hm : m < 60) :
      (twoDigits n).length = (twoDigits m).length := by
    rw [length_twoDigits n (by omega), length_twoDigits m (by omega)]
  unfold stemStr at hstem
  obtain ⟨hstem, hs⟩ := List.append_inj' hstem (hlength _ _ t.second_lt u.second_lt)
  obtain ⟨hh, hm⟩ := List.append_inj' hstem (hlength _ _ t.minute_lt u.minute_lt)
  have hd := CalendarDate.dateStr_injective hdate
  have hh := twoDigits_injective hh
  have hm := twoDigits_injective hm
  have hs := twoDigits_injective hs
  cases t
  cases u
  simp_all

end LocalTime

example : (LocalTime.ofSeconds 951868799).map
    (fun t => (t.date.dateStr, t.stemStr, t.next.map fun u => (u.date.dateStr, u.stemStr))) =
      some ("20000229".toList, "235959".toList, some ("20000301".toList, "000000".toList)) := by
  decide

end SolstoneTmux
