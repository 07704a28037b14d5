import Backdate.Calendar.Moment
import Mathlib.Logic.Function.Iterate
import Mathlib.Order.Monotone.Basic

/-!
# Counting days and seconds

The calendar again, as it is told and not as it is computed: a day is followed by
the next of its month, the last of a month by the first of the next, and so
without end in either direction (`Day.next`); a second likewise (`Second.next`).
The numbers that are computed with count just that.

* `Day.number_next`, `Day.number_lt_iff`: the day after has the next number, and
  days are numbered in the order of year, month and day.
* `Day.civil_number`: a day is found again from its number.
* `Second.at_iff`: to go a number of seconds from one second to another, one by
  one, is to add it.
* `Moment.ofCount?_number`: the moment of a second, as far as the calendar goes.
-/

namespace Backdate.Calendar

/-! ## Years and months -/

theorem isLeapYear_iff (y : Int) :
    isLeapYear y = true ↔ y % 4 = 0 ∧ (y % 100 ≠ 0 ∨ y % 400 = 0) := by
  unfold isLeapYear
  simp

theorem monthDays_range (y : Int) (month : Nat) :
    28 ≤ monthDays y month ∧ monthDays y month ≤ 31 := by
  unfold monthDays
  split
  · split <;> omega
  all_goals omega

/-- The number of 1 March of a year. -/
def yearStart (y : Int) : Int := 365 * y + y / 4 - y / 100 + y / 400

/-- A year from March to February has a leap day if its February is in a leap year. -/
theorem yearStart_succ (y : Int) :
    yearStart (y + 1) = yearStart y + if isLeapYear (y + 1) then 366 else 365 := by
  have hleap := isLeapYear_iff (y + 1)
  have h4 : (y + 1) / 4 = y / 4 + if (y + 1) % 4 = 0 then 1 else 0 := by omega
  have h100 : (y + 1) / 100 = y / 100 + if (y + 1) % 100 = 0 then 1 else 0 := by omega
  have h400 : (y + 1) / 400 = y / 400 + if (y + 1) % 400 = 0 then 1 else 0 := by omega
  have hcentury : (y + 1) % 100 = 0 → (y + 1) % 4 = 0 := by omega
  have hcycle : (y + 1) % 400 = 0 → (y + 1) % 100 = 0 := by omega
  unfold yearStart
  rw [h4, h100, h400]
  grind

/-- January and February are the last months of the year from March before. -/
theorem countDays_january (y : Int) :
    Date.countDays y 1 1 = yearStart (y - 1) + Date.daysBefore 10 := Int.add_zero _

theorem countDays_february (y : Int) :
    Date.countDays y 2 1 = yearStart (y - 1) + Date.daysBefore 11 := Int.add_zero _

theorem countDays_late {month : Nat} (h : 2 < month) (y : Int) (day : Nat) :
    Date.countDays y month day = yearStart y + Date.daysBefore (month - 3) + (day - 1) := by
  unfold Date.countDays yearStart
  rw [if_neg (by omega), if_neg (by omega)]

/-- From March on, a month ends where the next one starts in a year from March. -/
theorem monthDays_late (y : Int) (month : Nat) (hpos : 3 ≤ month) (hle : month ≤ 12) :
    (monthDays y month : Int) = Date.daysBefore (month - 2) - Date.daysBefore (month - 3) := by
  obtain rfl | rfl | rfl | rfl | rfl | rfl | rfl | rfl | rfl | rfl : month = 3 ∨ month = 4 ∨ month = 5 ∨
    month = 6 ∨ month = 7 ∨ month = 8 ∨ month = 9 ∨ month = 10 ∨ month = 11 ∨ month = 12 := by omega
  all_goals rfl

theorem monthDays_january (y : Int) :
    (monthDays y 1 : Int) = Date.daysBefore 11 - Date.daysBefore 10 := rfl

/-- February ends with its year from March. -/
theorem monthDays_february (y : Int) :
    (monthDays y 2 : Int) = yearStart y - yearStart (y - 1) - Date.daysBefore 11 := by
  have hyear := yearStart_succ (y - 1)
  rw [Int.sub_add_cancel] at hyear
  have hdays : monthDays y 2 = if isLeapYear y then 29 else 28 := rfl
  have hbefore : Date.daysBefore 11 = 337 := rfl
  rw [hyear, hdays, hbefore]
  split <;> omega

/-- A month is over when its days are. -/
theorem countDays_next_month (y : Int) {month : Nat} (hpos : 1 ≤ month) (hlt : month < 12) :
    Date.countDays y (month + 1) 1 = Date.countDays y month 1 + monthDays y month := by
  have hfeb := countDays_february y
  obtain rfl | rfl | hlate : month = 1 ∨ month = 2 ∨ 2 < month := by omega
  · have hjan := countDays_january y
    have hdays := monthDays_january y
    show Date.countDays y 2 1 = _
    omega
  · have hmar : Date.countDays y 3 1 = yearStart y + 0 + 0 := countDays_late (by decide) y 1
    have hdays := monthDays_february y
    show Date.countDays y 3 1 = _
    omega
  · have hnext : ((month + 1 : Nat) : Int) - 3 = month - 2 := by omega
    have hdays := monthDays_late y month hlate hlt.le
    rw [countDays_late (by omega), countDays_late hlate, hnext]
    omega

theorem countDays_next_year (y : Int) :
    Date.countDays (y + 1) 1 1 = Date.countDays y 12 1 + monthDays y 12 := by
  have hjan := countDays_january (y + 1)
  have hdec : Date.countDays y 12 1 = yearStart y + Date.daysBefore 9 + 0 :=
    countDays_late (by decide) y 1
  have hdays : (monthDays y 12 : Int) = Date.daysBefore 10 - Date.daysBefore 9 :=
    monthDays_late y 12 (by decide) (by decide)
  rw [Int.add_sub_cancel] at hjan
  omega

/-- Within a month days are counted from the first. -/
theorem countDays_day (y : Int) (month day : Nat) :
    Date.countDays y month day = Date.countDays y month 1 + (day - 1) := by
  simp only [Date.countDays]
  omega

/-- The number of the first day of a month, with the months of all years in one row. -/
def monthStart (k : Int) : Int := Date.countDays (k / 12) ((k % 12).toNat + 1) 1

theorem monthStart_succ (k : Int) :
    monthStart (k + 1) = monthStart k + monthDays (k / 12) ((k % 12).toNat + 1) := by
  unfold monthStart
  by_cases hdec : k % 12 = 11
  · have hyear : (k + 1) / 12 = k / 12 + 1 := by omega
    have hmonth : (k + 1) % 12 = 0 := by omega
    rw [hyear, hmonth, hdec]
    exact countDays_next_year (k / 12)
  · have hyear : (k + 1) / 12 = k / 12 := by omega
    have hmonth : ((k + 1) % 12).toNat = (k % 12).toNat + 1 := by omega
    rw [hyear, hmonth]
    exact countDays_next_month (k / 12) (by omega) (by omega)

theorem monthStart_mono {k k' : Int} (h : k ≤ k') : monthStart k ≤ monthStart k' := by
  refine monotone_int_of_le_succ (fun k => ?_) h
  rw [monthStart_succ]
  omega

/-! ## Days -/

/-- A day of the proleptic Gregorian calendar, in whatever year. -/
structure Day where
  year : Int
  month : Nat
  day : Nat
  month_pos : 1 ≤ month
  month_le : month ≤ 12
  day_pos : 1 ≤ day
  day_le : day ≤ monthDays year month
  deriving DecidableEq

namespace Day

/-- The first day of a month. -/
def first (year : Int) (month : Nat) (hpos : 1 ≤ month) (hle : month ≤ 12) : Day :=
  ⟨year, month, 1, hpos, hle, Nat.le_refl 1, Nat.le_trans (by decide) (monthDays_range year month).1⟩

/-- **The day that follows**: in the same month, else in the next month of the year, else on
1 January. -/
def next (d : Day) : Day :=
  if h : d.day < monthDays d.year d.month then
    ⟨d.year, d.month, d.day + 1, d.month_pos, d.month_le, Nat.succ_pos _, h⟩
  else if h : d.month < 12 then first d.year (d.month + 1) (Nat.succ_pos _) h
  else first (d.year + 1) 1 (Nat.le_refl 1) (by decide)

/-- The number of a day among all. -/
def number (d : Day) : Int := Date.countDays d.year d.month d.day

/-- The number of a day's month among all. -/
def months (d : Day) : Int := 12 * d.year + (d.month - 1)

variable {d d' : Day}

theorem months_div (d : Day) : d.months / 12 = d.year := by
  have hpos := d.month_pos
  have hle := d.month_le
  unfold months
  omega

theorem months_mod (d : Day) : (d.months % 12).toNat + 1 = d.month := by
  have hpos := d.month_pos
  have hle := d.month_le
  unfold months
  omega

theorem number_eq (d : Day) : d.number = monthStart d.months + (d.day - 1) := by
  unfold number monthStart
  rw [d.months_div, d.months_mod]
  exact countDays_day d.year d.month d.day

/-- A day lies in its month. -/
theorem number_lt_monthStart (d : Day) : d.number < monthStart (d.months + 1) := by
  have hday := d.day_le
  rw [number_eq, monthStart_succ, d.months_div, d.months_mod]
  omega

/-- **The day after has the next number.** -/
theorem number_next (d : Day) : d.next.number = d.number + 1 := by
  have hpos := d.month_pos
  have hle := d.month_le
  have hday := d.day_le
  have hnumber : d.number = Date.countDays d.year d.month 1 + (d.day - 1) :=
    countDays_day d.year d.month d.day
  unfold next
  split
  · have hnext := countDays_day d.year d.month (d.day + 1)
    show Date.countDays d.year d.month (d.day + 1) = _
    omega
  next hlast =>
    -- a day that is not followed in its month is the last of it
    have hend : d.number + 1 = Date.countDays d.year d.month 1 + monthDays d.year d.month := by omega
    rw [hend]
    split
    next hlt => exact countDays_next_month d.year hpos hlt
    next hdec =>
      obtain hmonth : d.month = 12 := by omega
      rw [hmonth]
      exact countDays_next_year d.year

theorem number_lt_of_months_lt (h : d.months < d'.months) : d.number < d'.number := by
  have hin := d.number_lt_monthStart
  have hmono := monthStart_mono (show d.months + 1 ≤ d'.months by omega)
  have hpos := d'.day_pos
  have hnumber := d'.number_eq
  omega

/-- **Days are numbered in order**: by year and month, then by day. -/
theorem number_lt_iff (d d' : Day) :
    d.number < d'.number ↔ d.months < d'.months ∨ d.months = d'.months ∧ d.day < d'.day := by
  have hnumber := d.number_eq
  have hnumber' := d'.number_eq
  rcases lt_trichotomy d.months d'.months with h | h | h
  · have hlt := number_lt_of_months_lt h
    omega
  · rw [h] at hnumber
    omega
  · have hlt := number_lt_of_months_lt h
    omega

theorem number_inj (h : d.number = d'.number) : d = d' := by
  have hlt := number_lt_iff d d'
  have hgt := number_lt_iff d' d
  have hpos := d.month_pos
  have hle := d.month_le
  have hpos' := d'.month_pos
  have hle' := d'.month_le
  unfold months at hlt hgt
  obtain ⟨y, m, n, _, _, _, _⟩ := d
  obtain ⟨y', m', n', _, _, _, _⟩ := d'
  obtain ⟨rfl, rfl, rfl⟩ : y = y' ∧ m = m' ∧ n = n' := by
    dsimp only at hlt hgt hpos hle hpos' hle'
    omega
  rfl

end Day

/-! ## From a number back to the day -/

/-- The year that is computed for a day of a cycle is the one that the day lies in. -/
theorem yearOfCycle_spec {n : Int} (hpos : 0 ≤ n) (hlt : n < 146097) :
    0 ≤ Date.yearOfCycle n ∧ Date.yearOfCycle n < 400 ∧ yearStart (Date.yearOfCycle n) ≤ n ∧
      n < yearStart (Date.yearOfCycle n + 1) := by
  unfold Date.yearOfCycle yearStart
  -- only on the last day of a cycle, a leap day, does the last term matter
  by_cases hlast : n = 146096
  · subst hlast; decide
  have hcycle : n / 146096 = 0 := by omega
  rw [hcycle]
  generalize hy : (n - n / 1460 + n / 36524 - 0) / 365 = y
  have hcentury : y / 100 = n / 36524 := by
    obtain h | h | h | h :
      n / 36524 = 0 ∨ n / 36524 = 1 ∨ n / 36524 = 2 ∨ n / 36524 = 3 := by omega
    all_goals rw [h] at hy ⊢; omega
  -- four years have a day more than 1460, so the count of leap days can be one too high, but only
  -- in the year that ends with that day
  have hfour : y / 4 ≤ n / 1460 := by omega
  have hfour' : n / 1460 ≤ (y + 1) / 4 := by omega
  refine ⟨by omega, by omega, by omega, ?_⟩
  by_cases hnext : (y + 1) % 100 = 0
  · omega
  · have hsame : (y + 1) / 100 = y / 100 := by omega
    omega

/-- The month that is computed for a day of a year from March is the one that the day lies in. -/
theorem monthOfYear_spec {n : Int} (hpos : 0 ≤ n) (hlt : n < 366) :
    0 ≤ (5 * n + 2) / 153 ∧ (5 * n + 2) / 153 < 12 ∧ Date.daysBefore ((5 * n + 2) / 153) ≤ n ∧
      n < Date.daysBefore ((5 * n + 2) / 153 + 1) := by
  unfold Date.daysBefore
  omega

theorem yearStart_cycle (y c : Int) : yearStart (y + c * 400) = yearStart y + 146097 * c := by
  unfold yearStart
  omega

/-- A day of a month is found from the days of the month before it. -/
theorem exists_day_of_month (y : Int) (month : Nat) (hpos : 1 ≤ month) (hle : month ≤ 12) {n : Int}
    (hn : 0 ≤ n) (hlt : n < monthDays y month) :
    ∃ d : Day, (y, month, (n + 1).toNat) = (d.year, d.month, d.day) ∧
      d.number = Date.countDays y month 1 + n := by
  refine ⟨⟨y, month, (n + 1).toNat, hpos, hle, by omega, by omega⟩, rfl, ?_⟩
  have hnumber := countDays_day y month (n + 1).toNat
  show Date.countDays y month (n + 1).toNat = _
  omega

/-- Month and day that are computed for a day of a year from March make a day with the right
number; January and February belong to the year after. -/
theorem exists_day_of_year (y : Int) {n : Int} (hpos : 0 ≤ n)
    (hlt : n < yearStart (y + 1) - yearStart y) :
    let m := (5 * n + 2) / 153
    let month := if m < 10 then m + 3 else m - 9
    ∃ d : Day, (y + (if month ≤ 2 then 1 else 0), month.toNat, (n - Date.daysBefore m + 1).toNat) =
      (d.year, d.month, d.day) ∧ d.number = yearStart y + n := by
  intro m month
  have hlen := yearStart_succ y
  obtain ⟨hm0, hm12, hstart, hend⟩ : 0 ≤ m ∧ m < 12 ∧ Date.daysBefore m ≤ n ∧
    n < Date.daysBefore (m + 1) := monthOfYear_spec hpos (by omega)
  clear_value m
  have hn : 0 ≤ n - Date.daysBefore m := by omega
  obtain hlate | rfl | rfl : m < 10 ∨ m = 10 ∨ m = 11 := by omega
  · have hmonth : (((m + 3).toNat : Nat) : Int) = m + 3 := by omega
    have hthree : 2 < (m + 3).toNat := by omega
    have hdays := monthDays_late y (m + 3).toNat hthree (by omega)
    have hfirst := countDays_late hthree y 1
    rw [hmonth, show m + 3 - 2 = m + 1 by omega, show m + 3 - 3 = m by omega] at hdays
    rw [hmonth, show m + 3 - 3 = m by omega] at hfirst
    obtain ⟨d, hd, hnumber⟩ :=
      exists_day_of_month y (m + 3).toNat (by omega) (by omega) hn (by omega)
    refine ⟨d, ?_, by omega⟩
    simp only [month, if_pos hlate]
    rw [if_neg (by omega), Int.add_zero, hd]
  · have hdays : n < Date.daysBefore 11 := hend
    have hjan := monthDays_january (y + 1)
    have hfirst := countDays_january (y + 1)
    rw [Int.add_sub_cancel] at hfirst
    obtain ⟨d, hd, hnumber⟩ := exists_day_of_month (y + 1) 1 (by decide) (by decide) hn (by omega)
    exact ⟨d, hd, by omega⟩
  · have hfeb := monthDays_february (y + 1)
    have hfirst := countDays_february (y + 1)
    rw [Int.add_sub_cancel] at hfeb hfirst
    obtain ⟨d, hd, hnumber⟩ := exists_day_of_month (y + 1) 2 (by decide) (by decide) hn (by omega)
    exact ⟨d, hd, by omega⟩

/-- What is computed for a number is a day, and the day has that number. -/
theorem civil_spec (n : Int) :
    ∃ d : Day, Date.civil n = (d.year, d.month, d.day) ∧ d.number = n := by
  have hdiv := Int.mul_ediv_add_emod n 146097
  obtain ⟨hy0, hy400, hyle, hylt⟩ :=
    yearOfCycle_spec (Int.emod_nonneg n (by decide)) (Int.emod_lt_of_pos n (by decide))
  simp only [Date.civil]
  generalize n / 146097 = c at *
  generalize n % 146097 = r at *
  generalize Date.yearOfCycle r = y at *
  have hstart : 365 * y + y / 4 - y / 100 = yearStart y := by unfold yearStart; omega
  have hcycle := yearStart_cycle y c
  have hcycle' := yearStart_cycle (y + 1) c
  rw [Int.add_right_comm] at hcycle'
  rw [hstart]
  obtain ⟨d, hd, hnumber⟩ :=
    exists_day_of_year (y + c * 400) (n := r - yearStart y) (by omega) (by omega)
  exact ⟨d, hd, by omega⟩

namespace Day

/-- **A day is found again from its number.** -/
theorem civil_number (d : Day) : Date.civil d.number = (d.year, d.month, d.day) := by
  obtain ⟨d', hcivil, hnumber⟩ := civil_spec d.number
  rw [hcivil, number_inj hnumber]

end Day

/-! ## Seconds -/

/-- A second of the calendar, in whatever year. Leap seconds are not among them. -/
structure Second where
  day : Day
  clock : Clock
  ordinary : clock.second < 60
  deriving DecidableEq

namespace Second

/-- **The second that follows**: in the same minute, else in the next minute of the hour, else in the
next hour of the day, else at midnight. -/
def next (s : Second) : Second :=
  if h : s.clock.second < 59 then
    ⟨s.day, ⟨s.clock.hour, s.clock.minute, s.clock.second + 1, s.clock.hour_lt, s.clock.minute_lt,
      by omega⟩, Nat.succ_lt_succ h⟩
  else if h : s.clock.minute < 59 then
    ⟨s.day, ⟨s.clock.hour, s.clock.minute + 1, 0, s.clock.hour_lt, by omega, by decide⟩, Nat.succ_pos 59⟩
  else if h : s.clock.hour < 23 then
    ⟨s.day, ⟨s.clock.hour + 1, 0, 0, by omega, by decide, by decide⟩, Nat.succ_pos 59⟩
  else ⟨s.day.next, ⟨0, 0, 0, by decide, by decide, by decide⟩, by decide⟩

/-- The number of a second among all. -/
def number (s : Second) : Int := s.day.number * 86400 + s.clock.seconds

/-- `j` is `span` seconds from `i`, counted one by one: on from `i`, or on from `j` if the span is
negative. -/
def At (i : Second) (span : Int) (j : Second) : Prop :=
  if 0 ≤ span then next^[span.toNat] i = j else next^[(-span).toNat] j = i

variable {s t i j : Second}

theorem seconds_lt (s : Second) : s.clock.seconds < 86400 := by
  have hhour := s.clock.hour_lt
  have hminute := s.clock.minute_lt
  have hsecond := s.ordinary
  unfold Clock.seconds
  omega

theorem number_next (s : Second) : s.next.number = s.number + 1 := by
  have hhour := s.clock.hour_lt
  have hminute := s.clock.minute_lt
  have hsecond := s.ordinary
  have hday := s.day.number_next
  unfold next
  split
  · simp only [number, Clock.seconds]; omega
  · split
    · simp only [number, Clock.seconds]; omega
    · split
      · simp only [number, Clock.seconds]; omega
      · simp only [number, Clock.seconds, hday]; omega

theorem number_iterate (n : Nat) (s : Second) : (next^[n] s).number = s.number + n := by
  induction n with
  | zero => simp
  | succ n ih =>
    rw [Function.iterate_succ_apply', number_next, ih]
    omega

theorem clock_eq_ofSeconds (s : Second) :
    s.clock = Clock.ofSeconds s.clock.seconds s.seconds_lt := by
  have hhour := s.clock.hour_lt
  have hminute := s.clock.minute_lt
  have hsecond := s.ordinary
  obtain ⟨day, ⟨h, m, n, _, _, _⟩, _⟩ := s
  simp only [Clock.ofSeconds, Clock.seconds, Clock.mk.injEq] at *
  omega

theorem number_inj (h : s.number = t.number) : s = t := by
  have hs := s.seconds_lt
  have ht := t.seconds_lt
  unfold number at h
  have hday : s.day = t.day := Day.number_inj (by omega)
  have hseconds : s.clock.seconds = t.clock.seconds := by omega
  have hclock : s.clock = t.clock :=
    calc s.clock = Clock.ofSeconds s.clock.seconds s.seconds_lt := s.clock_eq_ofSeconds
      _ = Clock.ofSeconds t.clock.seconds t.seconds_lt := by simp only [hseconds]
      _ = t.clock := t.clock_eq_ofSeconds.symm
  obtain ⟨d, c, _⟩ := s
  obtain ⟨d', c', _⟩ := t
  obtain rfl : d = d' := hday
  obtain rfl : c = c' := hclock
  rfl

/-- Every number is that of a second. -/
theorem exists_number (n : Int) : ∃ s : Second, s.number = n := by
  obtain ⟨d, -, hd⟩ := civil_spec (n / 86400)
  refine ⟨⟨d, Clock.ofSeconds (n % 86400).toNat (by omega), by simp only [Clock.ofSeconds]; omega⟩, ?_⟩
  simp only [number, Clock.seconds, Clock.ofSeconds, hd]
  omega

/-- **To count on or back is to add.** -/
theorem at_iff {span : Int} : i.At span j ↔ j.number = i.number + span := by
  unfold At
  split
  · have hnumber := number_iterate span.toNat i
    constructor
    · rintro rfl
      omega
    · intro h
      exact number_inj (by omega)
  · have hnumber := number_iterate (-span).toNat j
    constructor
    · rintro rfl
      omega
    · intro h
      exact number_inj (by omega)

end Second

/-! ## Moments -/

/-- A date is a day of the calendar. -/
def Date.toDay (d : Date) : Day :=
  ⟨d.year, d.month, d.day, d.isDate.2.2.1, d.isDate.2.2.2.1, d.isDate.2.2.2.2.1,
    d.isDate.2.2.2.2.2⟩

theorem Date.number_toDay (d : Date) : d.toDay.number = d.number := rfl

/-- A second is in a year that the calendar reaches. -/
def Second.InReach (s : Second) : Prop := minYear ≤ s.day.year ∧ s.day.year ≤ maxYear

namespace Moment

/-- A moment is this second. -/
structure Is (m : Moment) (s : Second) : Prop where
  day : m.date.toDay = s.day
  clock : m.clock = s.clock

/-- The last ordinary second that is not after a moment: its own, or second 59 for a leap second. -/
def floor (m : Moment) : Second :=
  ⟨m.date.toDay, ⟨m.clock.hour, m.clock.minute, min m.clock.second 59, m.clock.hour_lt,
    m.clock.minute_lt, by omega⟩, Nat.lt_succ_of_le (Nat.min_le_right _ _)⟩

theorem floor_number (m : Moment) :
    m.floor.number = if m.clock.second = 60 then m.count - 1 else m.count := by
  have hsecond := m.clock.second_le
  simp only [Second.number, floor, count, Clock.seconds, Date.number_toDay]
  split <;> omega

/-- **The moment of a second**, if the calendar reaches that far. -/
theorem ofCount?_number (s : Second) :
    ofCount? s.number = (Date.of? s.day.year s.day.month s.day.day).map (⟨·, s.clock⟩) := by
  have hlt := s.seconds_lt
  have hday : s.number / 86400 = s.day.number := by unfold Second.number; omega
  have hclock : (s.number % 86400).toNat = s.clock.seconds := by unfold Second.number; omega
  unfold ofCount? Date.ofNumber?
  simp only [hday, hclock, s.day.civil_number, ← s.clock_eq_ofSeconds]

end Moment

end Backdate.Calendar
