import Backdate.Anchor
import Backdate.Proofs.Counting
import Backdate.Proofs.Validity

/-!
# Resolving event times

An event's time is so many seconds from its anchor (`EventTime.delta`), and its
moment is found by counting them on the calendar. The one exception is an anchor
at a leap second, which is not among the seconds that are counted: later moments
are counted from the second before it and earlier ones from the second after.

* `resolve_by_counting`: the moment of a time, or that the calendar does not
  reach it, for every anchor and every time.
* `resolve_keeps_order`: times of a checked plan are in the order of their moments.
* `one_day_later_iff`: a day more is a day later, unless the anchor is at a leap
  second and lies between the two.
-/

namespace Backdate

open Calendar

/-! ## Moments by counting -/

namespace Calendar

variable {s : Second}

/-- A second is a moment if the calendar reaches it. -/
theorem Second.exists_is : (∃ m : Moment, m.Is s) ↔ s.InReach := by
  constructor
  · rintro ⟨m, hday, -⟩
    unfold Second.InReach
    rw [← hday]
    exact ⟨m.date.isDate.1, m.date.isDate.2.1⟩
  · rintro ⟨hmin, hmax⟩
    exact ⟨⟨⟨s.day.year, s.day.month, s.day.day, hmin, hmax, s.day.month_pos, s.day.month_le,
      s.day.day_pos, s.day.day_le⟩, s.clock⟩, rfl, rfl⟩

namespace Moment

variable {m m' : Moment}

theorem Is.count (h : m.Is s) : m.count = s.number := by
  unfold Moment.count Second.number
  rw [← h.day, h.clock, Date.number_toDay]

theorem Is.ordinary (h : m.Is s) : m.clock.second < 60 := by
  rw [h.clock]
  exact s.ordinary

theorem is_floor (h : m.clock.second < 60) : m.Is m.floor := by
  have hmin : min m.clock.second 59 = m.clock.second := by omega
  obtain ⟨date, ⟨hour, minute, second, _, _, _⟩⟩ := m
  refine ⟨rfl, ?_⟩
  simp only [floor, Clock.mk.injEq, true_and]
  exact hmin.symm

theorem Is.unique (h : m.Is s) (h' : m'.Is s) : m = m' := by
  obtain ⟨⟨year, month, day, _⟩, clock⟩ := m
  obtain ⟨⟨year', month', day', _⟩, clock'⟩ := m'
  have hday := h.day.trans h'.day.symm
  have hclock := h.clock.trans h'.clock.symm
  simp only [Date.toDay, Day.mk.injEq] at hday hclock
  obtain ⟨rfl, rfl, rfl⟩ := hday
  subst hclock
  rfl

/-- **The moment with a count is that second.** -/
theorem ofCount?_eq_some : ofCount? s.number = some m ↔ m.Is s := by
  rw [ofCount?_number]
  constructor
  · intro h
    obtain ⟨d, hd, rfl⟩ := Option.map_eq_some_iff.1 h
    unfold Date.of? at hd
    split at hd
    · cases hd; exact ⟨rfl, rfl⟩
    · cases hd
  · intro h
    obtain ⟨hmin, hmax⟩ := Second.exists_is.1 ⟨m, h⟩
    have hdate : IsDate s.day.year s.day.month s.day.day :=
      ⟨hmin, hmax, s.day.month_pos, s.day.month_le, s.day.day_pos, s.day.day_le⟩
    unfold Date.of?
    rw [dif_pos hdate, Option.map_some, Option.some_inj]
    exact Is.unique ⟨rfl, rfl⟩ h

/-! From a moment that is one of the seconds, a span is counted from that second. From a leap second
it is counted from the second before or after. -/

theorem add?_ordinary (h : m.clock.second < 60) (span : Int) :
    m.add? span = ofCount? (m.floor.number + span) := by
  have hleap : m.isLeap = false := beq_false_of_ne (by omega)
  have hcount := (is_floor h).count
  unfold add?
  by_cases hspan : span = 0
  · -- no span at all is not looked up, but would be found where it is
    rw [if_pos hspan, hspan, Int.add_zero, ofCount?_eq_some.2 (is_floor h)]
  · rw [if_neg hspan, if_neg (by simp [hleap]), hcount]

theorem add?_later (h : m.clock.second = 60) {span : Int} (hspan : 0 < span) :
    m.add? span = ofCount? (m.floor.number + span) := by
  have hnumber := m.floor_number
  rw [if_pos h] at hnumber
  unfold add?
  rw [if_neg (by omega), if_pos ⟨by simp [isLeap, h], hspan⟩, hnumber]

theorem add?_earlier (h : m.clock.second = 60) {span : Int} (hspan : span < 0) :
    m.add? span = ofCount? (m.floor.next.number + span) := by
  have hnumber := m.floor_number
  rw [if_pos h] at hnumber
  unfold add?
  rw [if_neg (by omega), if_neg (by omega), Second.number_next, hnumber, Int.sub_add_cancel]

/-- The count of a moment that is a span away; a leap second itself is counted with the next
minute. -/
theorem count_of_add? {span : Int} (h : m.add? span = some m') :
    (span = 0 ∧ m' = m) ∨ (m'.clock.second < 60 ∧
      m'.count = m.count + span - if m.clock.second = 60 ∧ 0 < span then 1 else 0) := by
  have hfound {n : Int} (hn : ofCount? n = some m') : m'.clock.second < 60 ∧ m'.count = n := by
    obtain ⟨s, rfl⟩ := Second.exists_number n
    have his := ofCount?_eq_some.1 hn
    exact ⟨his.ordinary, his.count⟩
  unfold add? at h
  by_cases hspan : span = 0
  · rw [if_pos hspan] at h
    cases h
    exact .inl ⟨hspan, rfl⟩
  rw [if_neg hspan] at h
  right
  by_cases hleap : m.clock.second = 60 ∧ 0 < span
  · rw [if_pos ⟨by simp [isLeap, hleap.1], hleap.2⟩] at h
    obtain ⟨hordinary, hcount⟩ := hfound h
    rw [if_pos hleap]
    exact ⟨hordinary, by omega⟩
  · have hno : ¬ (m.isLeap = true ∧ 0 < span) := by simpa [isLeap] using hleap
    rw [if_neg hno] at h
    obtain ⟨hordinary, hcount⟩ := hfound h
    rw [if_neg hleap]
    exact ⟨hordinary, by omega⟩

end Moment

end Calendar

/-! ## The moment of a time -/

/-- The seconds from the anchor to an event: its days, its hours from nine o'clock and its minutes. -/
def EventTime.delta (t : EventTime) : Int :=
  86400 * t.day.toNat + 3600 * (t.hour.toNat - 9) + 60 * t.minute.toNat

/-- Every span can be counted. -/
theorem EventTime.span?_eq (t : EventTime) : t.span? = some t.delta := by
  have hday := t.day.toNat_lt
  have hhour := t.hour.toNat_lt
  have hminute := t.minute.toNat_lt
  have hcounted (n : Int) (hlow : -32400 ≤ n) (hhigh : n ≤ 400000000000000) : counted n = some n := by
    unfold counted maxSpan
    rw [if_pos (by omega)]
  unfold span? delta baselineHour
  -- the days, the days with the hours, and the whole, each within what can be counted
  rw [hcounted _ (by omega) (by omega)]
  simp only [Option.bind_eq_bind, Option.bind_some]
  rw [hcounted _ (by omega) (by omega)]
  simp only [Option.bind_some]
  rw [hcounted _ (by omega) (by omega)]

namespace Anchor

variable {a : Anchor} {t t' : EventTime} {m m' : Moment}

theorem resolve_eq_ok : a.resolve t = .ok m ↔ a.start.add? t.delta = some m := by
  unfold resolve
  rw [t.span?_eq]
  cases h : a.start.add? t.delta <;> simp [h]

theorem resolve_eq_error {why : Unresolved} :
    a.resolve t = .error why ↔ why = .calendar t a ∧ a.start.add? t.delta = none := by
  unfold resolve
  rw [t.span?_eq]
  cases h : a.start.add? t.delta <;> simp [h, eq_comm]

/-- **A time is resolved by counting from `i` to `j`**: `j` is the one second that is as far from `i`
as the time is from the anchor, the time has a moment if the calendar reaches `j`, and the moment is
`j`. -/
structure CountsFrom (a : Anchor) (t : EventTime) (i j : Second) : Prop where
  away : ∀ k, i.At t.delta k ↔ k = j
  found : (∃ m, a.resolve t = .ok m) ↔ j.InReach
  moment : ∀ m, a.resolve t = .ok m ↔ m.Is j

theorem exists_countsFrom {i : Second}
    (h : a.start.add? t.delta = Moment.ofCount? (i.number + t.delta)) :
    ∃ j, a.CountsFrom t i j := by
  obtain ⟨j, hj⟩ := Second.exists_number (i.number + t.delta)
  have hmoment (m : Moment) : a.resolve t = .ok m ↔ m.Is j := by
    rw [resolve_eq_ok, h, ← hj, Moment.ofCount?_eq_some]
  refine ⟨j, fun k => ?_, ?_, hmoment⟩
  · rw [Second.at_iff, ← hj]
    exact ⟨Second.number_inj, fun hk => hk ▸ rfl⟩
  · rw [← Second.exists_is]
    exact exists_congr hmoment

/-- **Times are resolved exactly, as far as the calendar goes.** From an anchor that is one of the
seconds of the calendar, a time is counted from there. From a leap second, nine o'clock on day 0 is
the anchor itself, later times are counted from second 59 of its minute, and earlier ones from
second 0 of the next. The one error is that the calendar does not reach so far. -/
theorem resolve_by_counting (a : Anchor) (t : EventTime) :
    (a.start.clock.second < 60 → ∃ j, a.CountsFrom t a.start.floor j) ∧
    (a.start.clock.second = 60 →
      (t.delta = 0 → a.resolve t = .ok a.start) ∧
      (0 < t.delta → ∃ j, a.CountsFrom t a.start.floor j) ∧
      (t.delta < 0 → ∃ j, a.CountsFrom t a.start.floor.next j)) ∧
    ∀ why, a.resolve t = .error why → why = .calendar t a := by
  refine ⟨fun hsecond => ?_, fun hleap => ⟨fun hzero => ?_, fun hlater => ?_, fun hearlier => ?_⟩,
    fun why hwhy => (resolve_eq_error.1 hwhy).1⟩
  · exact exists_countsFrom (Moment.add?_ordinary hsecond t.delta)
  · rw [resolve_eq_ok, hzero]; rfl
  · exact exists_countsFrom (Moment.add?_later hleap hlater)
  · exact exists_countsFrom (Moment.add?_earlier hleap hearlier)

/-- The last day of the calendar is reached to its last minute, and the day after is not. -/
theorem last_day_reached :
    let a : Anchor := ⟨⟨⟨262142, 12, 31, by decide⟩, ⟨9, 0, 0, by decide, by decide, by decide⟩⟩⟩
    (∃ j, a.CountsFrom ⟨0, 23, 59⟩ a.start.floor j ∧ j.InReach) ∧
      ∃ j, a.CountsFrom ⟨1, 0, 0⟩ a.start.floor j ∧ ¬ j.InReach := by
  intro a
  have hsecond : a.start.clock.second < 60 := by decide
  have hin : a.resolve ⟨0, 23, 59⟩ =
      .ok ⟨a.start.date, ⟨23, 59, 0, by decide, by decide, by decide⟩⟩ := by decide +kernel
  have hout : a.resolve ⟨1, 0, 0⟩ = .error (.calendar ⟨1, 0, 0⟩ a) := by decide +kernel
  obtain ⟨j, hj⟩ := (resolve_by_counting a ⟨0, 23, 59⟩).1 hsecond
  obtain ⟨k, hk⟩ := (resolve_by_counting a ⟨1, 0, 0⟩).1 hsecond
  refine ⟨⟨j, hj, hj.found.1 ⟨_, hin⟩⟩, k, hk, fun h => ?_⟩
  obtain ⟨m, hm⟩ := hk.found.2 h
  rw [hout] at hm
  cases hm

end Anchor

/-! ## Order -/

section Compare

variable {α β : Type} [Ord α] [LT α] [LE α] [Std.LawfulOrderOrd α] [Std.LawfulOrderLT α]
  [Ord β] [LT β] [LE β] [Std.LawfulOrderOrd β] [Std.LawfulOrderLT β]

/-- What is less and greater alike compares alike. -/
theorem compare_congr {a b : α} {c d : β} (hlt : a < b ↔ c < d) (hgt : b < a ↔ d < c) :
    compare a b = compare c d := by
  cases h : compare a b with
  | lt => exact (Std.compare_eq_lt.2 (hlt.1 (Std.compare_eq_lt.1 h))).symm
  | gt => exact (Std.compare_eq_gt.2 (hgt.1 (Std.compare_eq_gt.1 h))).symm
  | eq =>
    cases h' : compare c d with
    | lt => rw [Std.compare_eq_lt.2 (hlt.2 (Std.compare_eq_lt.1 h'))] at h; cases h
    | gt => rw [Std.compare_eq_gt.2 (hgt.2 (Std.compare_eq_gt.1 h'))] at h; cases h
    | eq => rfl

end Compare

/-- **Numbers compare place by place**, the higher place first. -/
theorem compare_places {a b r s k : Int} (hr : 0 ≤ r) (hrk : r < k) (hs : 0 ≤ s) (hsk : s < k) :
    compare (a * k + r) (b * k + s) = (compare a b).then (compare r s) := by
  have hk : 0 ≤ k := by omega
  rcases Int.lt_trichotomy a b with h | rfl | h
  · -- a whole unit of the higher place is more than any lower place
    have hmul := Int.mul_le_mul_of_nonneg_right (Int.add_one_le_of_lt h) hk
    rw [Int.add_mul, Int.one_mul] at hmul
    rw [Int.compare_eq_lt.2 h, Int.compare_eq_lt.2 (by omega)]
    rfl
  · rw [Int.compare_eq_eq.2 (rfl : a = a)]
    exact compare_congr (by omega) (by omega)
  · have hmul := Int.mul_le_mul_of_nonneg_right (Int.add_one_le_of_lt h) hk
    rw [Int.add_mul, Int.one_mul] at hmul
    rw [Int.compare_eq_gt.2 h, Int.compare_eq_gt.2 (by omega)]
    rfl

theorem compare_cast (a b : Nat) : compare a b = compare (a : Int) b :=
  compare_congr (by omega) (by omega)

/-- Times of a checked plan are ordered by their distance from the anchor. -/
theorem EventTime.compare_eq_delta {t t' : EventTime} (ht : t.hour ≤ 23 ∧ t.minute ≤ 59)
    (ht' : t'.hour ≤ 23 ∧ t'.minute ≤ 59) : compare t t' = compare t.delta t'.delta := by
  have hhour : t.hour.toNat ≤ 23 := UInt8.le_iff_toNat_le.1 ht.1
  have hminute : t.minute.toNat ≤ 59 := UInt8.le_iff_toNat_le.1 ht.2
  have hhour' : t'.hour.toNat ≤ 23 := UInt8.le_iff_toNat_le.1 ht'.1
  have hminute' : t'.minute.toNat ≤ 59 := UInt8.le_iff_toNat_le.1 ht'.2
  have hword (x y : UInt8) : compare x y = compare (x.toNat : Int) y.toNat :=
    compare_congr (by rw [UInt8.lt_iff_toNat_lt]; omega) (by rw [UInt8.lt_iff_toNat_lt]; omega)
  have hday : compare t.day t'.day = compare (t.day.toNat : Int) t'.day.toNat :=
    compare_congr (by rw [UInt32.lt_iff_toNat_lt]; omega) (by rw [UInt32.lt_iff_toNat_lt]; omega)
  calc compare t t'
      = (compare t.day t'.day).then ((compare t.hour t'.hour).then (compare t.minute t'.minute)) := rfl
    _ = compare (((t.day.toNat : Int) * 24 + t.hour.toNat) * 60 + t.minute.toNat)
          (((t'.day.toNat : Int) * 24 + t'.hour.toNat) * 60 + t'.minute.toNat) := by
        rw [hday, hword, hword, ← Ordering.then_assoc, compare_places, compare_places] <;> omega
    _ = compare t.delta t'.delta := by
        unfold delta
        exact compare_congr (by omega) (by omega)

namespace Calendar

/-- Days are ordered by year, then month, then day. -/
theorem Day.compare_number (d d' : Day) : compare d.number d'.number =
    (compare d.year d'.year).then ((compare d.month d'.month).then (compare d.day d'.day)) := by
  have hpos := d.month_pos
  have hle := d.month_le
  have hpos' := d'.month_pos
  have hle' := d'.month_le
  have hmonths : compare d.months d'.months =
      (compare d.year d'.year).then (compare d.month d'.month) := by
    have hmonth : compare ((d.month : Int) - 1) (d'.month - 1) = compare d.month d'.month :=
      compare_congr (by omega) (by omega)
    unfold Day.months
    rw [Int.mul_comm 12, Int.mul_comm 12, compare_places, hmonth] <;> omega
  rw [← Ordering.then_assoc, ← hmonths]
  have hlt := number_lt_iff d d'
  have hgt := number_lt_iff d' d
  rcases Int.lt_trichotomy d.months d'.months with h | h | h
  · rw [Int.compare_eq_lt.2 h, Int.compare_eq_lt.2 (by omega)]
    rfl
  · rw [Int.compare_eq_eq.2 h]
    exact compare_congr (by omega) (by omega)
  · rw [Int.compare_eq_gt.2 h, Int.compare_eq_gt.2 (by omega)]
    rfl

namespace Moment

variable {m m' : Moment}

/-- Year, month, day, hour, minute and second, compared in this order. -/
def chronological (m m' : Moment) : Ordering :=
  (compare m.date.year m'.date.year).then <| (compare m.date.month m'.date.month).then <|
    (compare m.date.day m'.date.day).then <| (compare m.clock.hour m'.clock.hour).then <|
      (compare m.clock.minute m'.clock.minute).then (compare m.clock.second m'.clock.second)

/-- Moments are ordered from year to second, with a leap second at the end of its minute. -/
theorem compare_eq_chronological (m m' : Moment) : compare m m' = m.chronological m' := by
  have hhour := m.clock.hour_lt
  have hminute := m.clock.minute_lt
  have hsecond := m.clock.second_le
  have hhour' := m'.clock.hour_lt
  have hminute' := m'.clock.minute_lt
  have hsecond' := m'.clock.second_le
  have hdate : compare m.date.number m'.date.number = (compare m.date.year m'.date.year).then
      ((compare m.date.month m'.date.month).then (compare m.date.day m'.date.day)) :=
    Day.compare_number m.date.toDay m'.date.toDay
  have hplaces : compare m.rank m'.rank =
      (((compare m.date.number m'.date.number).then (compare m.clock.hour m'.clock.hour)).then
        (compare m.clock.minute m'.clock.minute)).then (compare m.clock.second m'.clock.second) := by
    unfold rank
    rw [compare_places, compare_places, compare_places, compare_cast, compare_cast, compare_cast] <;>
      omega
  calc compare m m'
      = compare m.rank m'.rank := rfl
    _ = m.chronological m' := by
        rw [hplaces, hdate]
        simp only [chronological, Ordering.then_assoc]

theorem rank_lt_of_count_lt (hordinary : m.clock.second < 60) (h : m.count < m'.count) :
    m.rank < m'.rank := by
  have hsecond := m'.clock.second_le
  unfold count Clock.seconds at h
  unfold rank
  omega

end Moment

end Calendar

namespace Anchor

variable {a : Anchor} {t t' : EventTime} {m m' : Moment}

/-- A later time has a later moment, also if the anchor is at a leap second: times lie a minute
apart, and more is not lost at it. -/
theorem rank_lt_of_delta_lt (hm : a.resolve t = .ok m) (hm' : a.resolve t' = .ok m')
    (h : t.delta < t'.delta) : m.rank < m'.rank := by
  have hminutes : t.delta + 60 ≤ t'.delta := by unfold EventTime.delta at h ⊢; omega
  rcases Moment.count_of_add? (resolve_eq_ok.1 hm) with ⟨hzero, rfl⟩ | ⟨hordinary, hcount⟩ <;>
    rcases Moment.count_of_add? (resolve_eq_ok.1 hm') with ⟨hzero', rfl⟩ | ⟨hordinary', hcount'⟩
  · omega
  · -- from the anchor itself: at a leap second it is counted with the minute that follows, so the
    -- counts alone do not tell it apart from second 0 there
    have hsecond := a.start.clock.second_le
    by_cases hleap : a.start.clock.second = 60
    · unfold Moment.count Clock.seconds at hcount'
      unfold Moment.rank
      omega
    · exact Moment.rank_lt_of_count_lt (by omega) (by omega)
  · exact Moment.rank_lt_of_count_lt hordinary (by omega)
  · exact Moment.rank_lt_of_count_lt hordinary (by omega)

/-- **The order of times is the order of moments.** Two times that the check of a plan lets pass
compare as their moments do, from whatever anchor they are counted; and moments compare from year
to second. -/
theorem resolve_keeps_order (ht : Plan.checkTime t = .ok ()) (ht' : Plan.checkTime t' = .ok ())
    (hm : a.resolve t = .ok m) (hm' : a.resolve t' = .ok m') :
    compare t t' = compare m m' ∧ compare m m' = m.chronological m' := by
  refine ⟨?_, Moment.compare_eq_chronological m m'⟩
  rw [EventTime.compare_eq_delta (Plan.checkTime_ok.1 ht) (Plan.checkTime_ok.1 ht')]
  have hlater := rank_lt_of_delta_lt hm hm'
  have hearlier := rank_lt_of_delta_lt hm' hm
  have hsame : t.delta = t'.delta → m.rank = m'.rank := by
    intro h
    rw [resolve_eq_ok, h] at hm
    rw [resolve_eq_ok, hm, Option.some_inj] at hm'
    rw [hm']
  exact compare_congr (c := m.rank) (d := m'.rank) (by omega) (by omega)

/-- The anchor is at a leap second at the end of a year, and the time after it is in the next. -/
theorem leap_second_before_new_year :
    let a : Anchor := ⟨⟨⟨2016, 12, 31, by decide⟩, ⟨23, 59, 60, by decide, by decide, by decide⟩⟩⟩
    let m : Moment := ⟨⟨2017, 1, 1, by decide⟩, ⟨0, 0, 59, by decide, by decide, by decide⟩⟩
    a.resolve ⟨0, 9, 0⟩ = .ok a.start ∧ a.resolve ⟨0, 9, 1⟩ = .ok m ∧ compare a.start m = .lt := by
  intro a m
  have hstart : a.resolve ⟨0, 9, 0⟩ = .ok a.start := by decide +kernel
  have hnext : a.resolve ⟨0, 9, 1⟩ = .ok m := by decide +kernel
  have horder := (resolve_keeps_order rfl rfl hstart hnext).1
  exact ⟨hstart, hnext, by rw [← horder]; decide⟩

end Anchor

/-! ## A day more -/

namespace Calendar.Moment

variable {m m' : Moment}

/-- A moment is a day after another: on the date that follows, at the same time of day. -/
structure DayAfter (m' m : Moment) : Prop where
  date : m'.date.toDay = m.date.toDay.next
  clock : m'.clock = m.clock

theorem DayAfter.count (h : m'.DayAfter m) : m'.count = m.count + 86400 := by
  have hnumber : m'.date.number = m.date.number + 1 := by
    rw [← Date.number_toDay, h.date, Day.number_next, Date.number_toDay]
  unfold Moment.count
  rw [hnumber, h.clock]
  omega

theorem dayAfter_of_count (hm : m.clock.second < 60) (hm' : m'.clock.second < 60)
    (h : m'.count = m.count + 86400) : m'.DayAfter m := by
  have hnumber : (⟨m.date.toDay.next, m.clock, hm⟩ : Second).number = m.count + 86400 := by
    simp only [Second.number, Day.number_next, Date.number_toDay, Moment.count]
    omega
  have hfloor : m'.floor = ⟨m.date.toDay.next, m.clock, hm⟩ :=
    Second.number_inj (by rw [hnumber, ← h, (is_floor hm').count])
  have his := is_floor hm'
  rw [hfloor] at his
  exact ⟨his.day, his.clock⟩

end Calendar.Moment

namespace Anchor

variable {a : Anchor} {m m' : Moment}

/-- **A day more is a day later, but not across a leap second.** Of two times that are a day apart
and have a moment, the later one is a day after the earlier one if and only if the anchor is not at a
leap second or both times are after it; otherwise it is a second short of that. At nine o'clock on
day 0 is the anchor. -/
theorem one_day_later_iff {d d' : UInt32} {hour minute : UInt8} (hd : d'.toNat = d.toNat + 1)
    (hm : a.resolve ⟨d, hour, minute⟩ = .ok m) (hm' : a.resolve ⟨d', hour, minute⟩ = .ok m') :
    (m'.DayAfter m ↔ a.start.clock.second < 60 ∨ 0 < EventTime.delta ⟨d, hour, minute⟩) ∧
    (m'.DayAfter m ∨ m'.count + 1 = m.count + 86400) ∧
    a.resolve ⟨0, 9, 0⟩ = .ok a.start := by
  have hsecond := a.start.clock.second_le
  have hdelta : EventTime.delta ⟨d', hour, minute⟩ = EventTime.delta ⟨d, hour, minute⟩ + 86400 := by
    simp only [EventTime.delta, hd]
    omega
  have hlow : -32400 ≤ EventTime.delta ⟨d, hour, minute⟩ := by
    simp only [EventTime.delta]
    omega
  rw [resolve_eq_ok, hdelta] at hm'
  rw [resolve_eq_ok] at hm
  generalize EventTime.delta ⟨d, hour, minute⟩ = span at *
  -- the later time is after the anchor in any case, since nine hours are less than a day
  obtain ⟨hordinary', hcount'⟩ := (Moment.count_of_add? hm').resolve_left (by omega)
  have hday : a.start.clock.second < 60 ∨ 0 < span →
      m.clock.second < 60 ∧ m'.count = m.count + 86400 := by
    intro h
    rcases Moment.count_of_add? hm with ⟨hzero, rfl⟩ | ⟨hordinary, hcount⟩
    · exact ⟨by omega, by omega⟩
    · exact ⟨hordinary, by omega⟩
  have hshort : ¬ (a.start.clock.second < 60 ∨ 0 < span) → m'.count + 1 = m.count + 86400 := by
    intro h
    rcases Moment.count_of_add? hm with ⟨hzero, rfl⟩ | ⟨-, hcount⟩ <;> omega
  have hiff : m'.DayAfter m ↔ a.start.clock.second < 60 ∨ 0 < span := by
    constructor
    · intro h
      by_contra hno
      have hcount := h.count
      have hcount' := hshort hno
      omega
    · intro h
      exact Moment.dayAfter_of_count (hday h).1 hordinary' (hday h).2
  refine ⟨hiff, ?_, resolve_eq_ok.2 rfl⟩
  rw [hiff]
  exact (em _).imp_right hshort

/-- Midnight of day 0 and of day 1 are on one date. -/
theorem same_date_a_day_later :
    let a : Anchor := ⟨⟨⟨2016, 12, 31, by decide⟩, ⟨8, 59, 60, by decide, by decide, by decide⟩⟩⟩
    let m : Moment := ⟨⟨2016, 12, 31, by decide⟩, ⟨0, 0, 0, by decide, by decide, by decide⟩⟩
    let m' : Moment := ⟨⟨2016, 12, 31, by decide⟩, ⟨23, 59, 59, by decide, by decide, by decide⟩⟩
    parse "2016-12-31T08:59:60" = .ok a ∧ a.resolve ⟨0, 0, 0⟩ = .ok m ∧
      a.resolve ⟨1, 0, 0⟩ = .ok m' ∧ ¬ m'.DayAfter m := by
  intro a m m'
  have hparse : parse "2016-12-31T08:59:60" = .ok a := by decide +kernel
  have hm : a.resolve ⟨0, 0, 0⟩ = .ok m := by decide +kernel
  have hm' : a.resolve ⟨1, 0, 0⟩ = .ok m' := by decide +kernel
  refine ⟨hparse, hm, hm', fun h => ?_⟩
  have hcause := (one_day_later_iff rfl hm hm').1.1 h
  revert hcause
  decide

end Anchor

end Backdate
