import Backdate.Anchor
import Backdate.Proofs.Counting
import Backdate.Proofs.Lines

/-!
# Reading what was written

A moment is written in one way and read in many. What was written is read back,
over the whole calendar: years with a sign, years of fewer than four digits, and
leap seconds too.

* `Reader.digits_padded`: digits are read to their end, if something else follows.
* `Reader.moment_dateText`: a date is read back, and what stands after it is left.
* `Moment.read_written_T`, `Moment.read_written_space`: so is a moment, with a `T`
  or a space after its date.
* `Anchor.texts_read_back`: so is an anchor from its text, and no two moments are
  written alike.
-/

namespace Backdate.Calendar

/-! ## Numbers -/

theorem isDigit_of_mem_padded {width n : Nat} {c : Char} (h : c ∈ padded width n) :
    c.isDigit = true := by
  unfold padded at h
  rcases List.mem_append.1 h with h | h
  · rw [List.eq_of_mem_replicate h]; rfl
  · exact Nat.isDigit_of_mem_toDigits (by decide) (by decide) h

theorem padded_ne_nil (width n : Nat) : padded width n ≠ [] := by
  unfold padded
  intro h
  exact Nat.toDigits_ne_nil (List.append_eq_nil_iff.1 h).2

theorem length_padded {width n : Nat} (h : (Nat.toDigits 10 n).length ≤ width) :
    (padded width n).length = width := by
  unfold padded
  rw [List.length_append, List.length_replicate]
  omega

theorem ofDigitChars_padded (width n : Nat) : Nat.ofDigitChars 10 (padded width n) 0 = n := by
  have hzeros (k : Nat) : Nat.ofDigitChars 10 (List.replicate k '0') 0 = 0 := by
    induction k with
    | zero => rfl
    | succ k ih => rw [List.replicate_succ, Nat.ofDigitChars_cons]; exact ih
  unfold padded
  rw [Nat.ofDigitChars_append, hzeros, Nat.ofDigitChars_ten_toDigits]

/-- What follows is no digit. -/
def Ends (rest : List Char) : Prop := ∀ c ∈ rest.head?, c.isDigit = false

theorem ends_nil : Ends [] := fun _ h => (by cases h)

theorem ends_cons {c : Char} (h : c.isDigit = false) (rest : List Char) : Ends (c :: rest) := by
  intro d hd
  cases hd
  exact h

theorem isBlank_of_isDigit {c : Char} (h : c.isDigit = true) : Text.isBlank c = false := by
  have hrange : 48 ≤ c.toNat ∧ c.toNat ≤ 57 := by simpa using Char.isDigit_iff_toNat.1 h
  simp only [Text.isBlank, Text.blankRanges, List.any_cons, List.any_nil]
  grind

/-- A number starts with a digit. -/
theorem exists_padded_append (width n : Nat) (rest : List Char) :
    ∃ d ds, d.isDigit = true ∧ padded width n ++ rest = d :: ds := by
  obtain ⟨d, ds, heq⟩ := List.exists_cons_of_ne_nil (padded_ne_nil width n)
  exact ⟨d, ds ++ rest, isDigit_of_mem_padded (heq ▸ List.mem_cons_self), by rw [heq]; rfl⟩

theorem trimStart_padded (width n : Nat) (rest : List Char) :
    Text.trimStart (padded width n ++ rest) = padded width n ++ rest := by
  obtain ⟨d, ds, hd, heq⟩ := exists_padded_append width n rest
  rw [heq, Text.trimStart_cons (isBlank_of_isDigit hd)]

namespace Reader

/-- **Digits are read to their end**, if something else follows. -/
theorem digits_padded {limit width n : Nat} {rest : List Char} (hend : Ends rest)
    (hlen : (padded width n).length ≤ limit) (hmax : n ≤ maxNumber) :
    digits limit (padded width n ++ rest) = .ok (n, rest) := by
  have hdigits : ∀ c ∈ padded width n, c.isDigit = true := fun c => isDigit_of_mem_padded
  have hvalue := ofDigitChars_padded width n
  obtain ⟨d, ds, heq⟩ := List.exists_cons_of_ne_nil (padded_ne_nil width n)
  rw [heq] at hlen hdigits hvalue ⊢
  -- the limit may leave room for more, but what follows is no digit
  have hrest : (rest.take (limit - (d :: ds).length)).takeWhile Char.isDigit = [] := by
    cases rest with
    | nil => simp
    | cons c cs =>
      cases limit - (d :: ds).length with
      | zero => rfl
      | succ k => rw [List.take_succ_cons, List.takeWhile_cons_of_neg (by simp [hend c rfl])]
  have htake : ((d :: ds ++ rest).take limit).takeWhile Char.isDigit = d :: ds := by
    rw [List.take_append, List.take_of_length_le hlen, List.takeWhile_append_of_pos hdigits, hrest,
      List.append_nil]
  rw [List.cons_append] at htake ⊢
  unfold digits
  simp only [htake, hvalue]
  rw [if_pos hmax, ← List.cons_append, List.drop_left]

/-- A number of two digits is read back, if it is in range. -/
theorem field_padded {lo hi n : Nat} {rest : List Char} (hlo : lo ≤ n) (hhi : n ≤ hi)
    (hn : n < 100) (hend : Ends rest) : field lo hi (padded 2 n ++ rest) = .ok (n, rest) := by
  have hlen : (Nat.toDigits 10 n).length ≤ 2 :=
    (Nat.length_toDigits_le_iff (by decide) (by decide)).2 hn
  have hdigits : digits 2 (padded 2 n ++ rest) = .ok (n, rest) :=
    digits_padded hend (Nat.le_of_eq (length_padded hlen)) (by unfold maxNumber; omega)
  unfold field
  rw [trimStart_padded, hdigits]
  exact if_pos ⟨hlo, hhi⟩

/-- A year is read back: with a sign however many digits it has, else with four. -/
theorem year_yearText {y : Int} (hmin : minYear ≤ y) (hmax : y ≤ maxYear) {rest : List Char}
    (hend : Ends rest) : year (yearText y ++ rest) = .ok (y, rest) := by
  have habs : y.natAbs ≤ 262143 := by unfold minYear at hmin; unfold maxYear at hmax; omega
  have hsmall : y.natAbs ≤ maxNumber := by unfold maxNumber; omega
  have hfits : -2147483648 ≤ y ∧ y ≤ 2147483647 := by omega
  have hsigned : digits (padded 4 y.natAbs ++ rest).length (padded 4 y.natAbs ++ rest) =
      .ok (y.natAbs, rest) :=
    digits_padded hend (by rw [List.length_append]; omega) hsmall
  unfold yearText
  -- a year is written with a minus, with a plus, or with neither and then in four digits
  split
  next hneg =>
    have hvalue : -(y.natAbs : Int) = y := by omega
    unfold year
    rw [List.cons_append, Text.trimStart_cons (by decide)]
    simp only [hsigned, Except.map, hvalue]
    exact if_pos hfits
  next hpos =>
    have hvalue : (y.natAbs : Int) = y := by omega
    split
    next hlarge =>
      unfold year
      rw [List.cons_append, Text.trimStart_cons (by decide)]
      simp only [hsigned, Except.map, hvalue]
      exact if_pos hfits
    next hfour =>
      have hlen : (Nat.toDigits 10 y.natAbs).length ≤ 4 :=
        (Nat.length_toDigits_le_iff (by decide) (by decide)).2 (by omega)
      have hdigits : digits 4 (padded 4 y.natAbs ++ rest) = .ok (y.natAbs, rest) :=
        digits_padded hend (Nat.le_of_eq (length_padded hlen)) hsmall
      -- a digit is no sign
      obtain ⟨d, ds, hd, heq⟩ := exists_padded_append 4 y.natAbs rest
      have hminus : d ≠ '-' := by rintro rfl; exact absurd hd (by decide)
      have hplus : d ≠ '+' := by rintro rfl; exact absurd hd (by decide)
      rw [heq] at hdigits ⊢
      unfold year
      rw [Text.trimStart_cons (isBlank_of_isDigit hd)]
      split
      next h => exact absurd (List.cons.inj h).1 hminus
      next h => exact absurd (List.cons.inj h).1 hplus
      next =>
        simp only [hdigits, Except.map, hvalue]
        exact if_pos hfits

/-- What is read after a date and what stands between: a time and the end. -/
def clockAfter (y : Int) (mo d : Nat) (cs : List Char) : Except ReadError Moment := do
  let (h, cs) ← field 0 23 cs
  let cs ← mark ':' cs
  let (mi, cs) ← field 0 59 cs
  let cs ← mark ':' cs
  let (s, cs) ← field 0 60 cs
  if !cs.isEmpty then .error .trailing
  else
    match Date.of? y mo d, Clock.of? h mi s with
    | some date, some clock => .ok ⟨date, clock⟩
    | _, _ => .error .outOfRange

theorem moment_eq (between : List Char → Except ReadError (List Char)) (cs : List Char) :
    moment between cs = (do
      let (y, cs) ← year cs
      let cs ← mark '-' cs
      let (mo, cs) ← field 1 12 cs
      let cs ← mark '-' cs
      let (d, cs) ← field 1 31 cs
      let cs ← between cs
      clockAfter y mo d cs) := rfl

@[simp] theorem mark_cons (c : Char) (cs : List Char) : mark c (c :: cs) = .ok cs := if_pos rfl

/-- **A date is read back**, and what stands after it is left for what is read next. -/
theorem moment_dateText (between : List Char → Except ReadError (List Char)) (d : Date)
    {rest : List Char} (hend : Ends rest) :
    moment between (dateText d ++ rest) = between rest >>= clockAfter d.year d.month d.day := by
  obtain ⟨hmin, hmax, hmpos, hmle, hdpos, hdle⟩ := d.isDate
  have hlen := (monthDays_range d.year d.month).2
  have hdash (cs : List Char) : Ends ('-' :: cs) := ends_cons (by decide) cs
  have hyear := year_yearText hmin hmax (hdash (padded 2 d.month ++ '-' :: padded 2 d.day ++ rest))
  have hmonth := field_padded hmpos hmle (by omega) (hdash (padded 2 d.day ++ rest))
  have hday : field 1 31 (padded 2 d.day ++ rest) = .ok (d.day, rest) :=
    field_padded hdpos (by omega) (by omega) hend
  unfold dateText
  simp only [moment_eq, List.append_assoc, List.cons_append] at hyear hmonth ⊢
  rw [hyear]
  simp only [bind, Except.bind, mark_cons]
  rw [hmonth]
  simp only [mark_cons]
  rw [hday]

/-- A time is read back. -/
theorem clockAfter_clockText (d : Date) (c : Clock) :
    clockAfter d.year d.month d.day (clockText c) = .ok ⟨d, c⟩ := by
  have hhour := c.hour_lt
  have hminute := c.minute_lt
  have hcolon (cs : List Char) : Ends (':' :: cs) := ends_cons (by decide) cs
  have hdate : Date.of? d.year d.month d.day = some d := dif_pos d.isDate
  have hclock : Clock.of? c.hour c.minute c.second = some c :=
    dif_pos ⟨c.hour_lt, c.minute_lt, c.second_le⟩
  have hlast := field_padded (Nat.zero_le c.second) c.second_le
    (Nat.lt_of_le_of_lt c.second_le (by decide)) ends_nil
  rw [List.append_nil] at hlast
  unfold clockAfter clockText
  simp only [List.append_assoc, List.cons_append]
  rw [field_padded (Nat.zero_le _) (by omega) (by omega) (hcolon _)]
  simp only [bind, Except.bind, mark_cons]
  rw [field_padded (Nat.zero_le _) (by omega) (by omega) (hcolon _)]
  simp only [mark_cons]
  rw [hlast]
  simp only [hdate, hclock]
  rfl

end Reader

/-! ## Moments -/

/-- The characters that dates and times of day are written in. -/
def isWritten (c : Char) : Bool := c.isDigit || c == '+' || c == '-' || c == ':'

variable {c : Char}

theorem isWritten_of_mem_padded {width n : Nat} (h : c ∈ padded width n) : isWritten c = true := by
  unfold isWritten
  rw [isDigit_of_mem_padded h]; rfl

theorem isWritten_of_mem_yearText {y : Int} (h : c ∈ yearText y) : isWritten c = true := by
  unfold yearText at h
  split at h
  · rcases List.mem_cons.1 h with rfl | h
    · decide
    · exact isWritten_of_mem_padded h
  · split at h
    · rcases List.mem_cons.1 h with rfl | h
      · decide
      · exact isWritten_of_mem_padded h
    · exact isWritten_of_mem_padded h

theorem isWritten_of_mem_dateText {d : Date} (h : c ∈ dateText d) : isWritten c = true := by
  simp only [dateText, List.append_assoc, List.cons_append, List.mem_append, List.mem_cons] at h
  rcases h with h | rfl | h | rfl | h
  · exact isWritten_of_mem_yearText h
  · decide
  · exact isWritten_of_mem_padded h
  · decide
  · exact isWritten_of_mem_padded h

theorem isWritten_of_mem_clockText {k : Clock} (h : c ∈ clockText k) : isWritten c = true := by
  simp only [clockText, List.append_assoc, List.cons_append, List.mem_append, List.mem_cons] at h
  rcases h with h | rfl | h | rfl | h
  · exact isWritten_of_mem_padded h
  · decide
  · exact isWritten_of_mem_padded h
  · decide
  · exact isWritten_of_mem_padded h

theorem isBlank_of_isWritten (h : isWritten c = true) : Text.isBlank c = false := by
  simp only [isWritten, Bool.or_eq_true, beq_iff_eq] at h
  rcases h with ((h | rfl) | rfl) | rfl
  · exact isBlank_of_isDigit h
  · decide
  · decide
  · decide

/-- A day is written in these characters only. -/
theorem Moment.notMem_day (m : Moment) (hc : isWritten c = false) : c ∉ m.day.toList := by
  unfold day
  rw [String.toList_ofList]
  intro h
  rw [isWritten_of_mem_dateText h] at hc
  cases hc

/-- A moment is written in these characters and a space. -/
theorem Moment.notMem_text (m : Moment) (hc : isWritten c = false) (hspace : c ≠ ' ') :
    c ∉ m.text.toList := by
  unfold text
  rw [String.toList_ofList, List.mem_append, List.mem_cons]
  rintro (h | h | h)
  · rw [isWritten_of_mem_dateText h] at hc; cases hc
  · exact hspace h
  · rw [isWritten_of_mem_clockText h] at hc; cases hc

/-- Between two parts without blanks nothing is trimmed. -/
theorem trim_append {cs ds : List Char} (hcs : cs ≠ []) (hds : ds ≠ [])
    (hcs' : ∀ c ∈ cs, Text.isBlank c = false) (hds' : ∀ c ∈ ds, Text.isBlank c = false) (c : Char) :
    Text.trim (cs ++ c :: ds) = cs ++ c :: ds := by
  obtain ⟨x, xs, rfl⟩ := List.exists_cons_of_ne_nil hcs
  obtain ⟨ys, y, rfl⟩ : ∃ ys y, ds = ys ++ [y] :=
    ⟨ds.dropLast, ds.getLast hds, (List.dropLast_concat_getLast hds).symm⟩
  have hstart : Text.trimStart (x :: xs ++ c :: (ys ++ [y])) = x :: xs ++ c :: (ys ++ [y]) :=
    Text.trimStart_cons (hcs' x List.mem_cons_self) _
  have hy : Text.isBlank y = false := hds' y (List.mem_append_right _ List.mem_cons_self)
  have hend : (x :: xs ++ c :: (ys ++ [y])).reverse = y :: (x :: xs ++ c :: ys).reverse := by simp
  unfold Text.trim
  rw [hstart]
  unfold Text.trimEnd
  rw [hend, List.dropWhile_cons_of_neg (by rw [hy]; decide), ← hend, List.reverse_reverse]

namespace Moment

/-- Date and time of day, with a character between them. -/
def written (m : Moment) (between : Char) : List Char :=
  dateText m.date ++ between :: clockText m.clock

theorem trim_written (m : Moment) (between : Char) :
    Text.trim (m.written between) = m.written between := by
  have hdate : dateText m.date ≠ [] := by simp [dateText]
  have hclock : clockText m.clock ≠ [] := by simp [clockText]
  exact trim_append hdate hclock
    (fun _ hc => isBlank_of_isWritten (isWritten_of_mem_dateText hc))
    (fun _ hc => isBlank_of_isWritten (isWritten_of_mem_clockText hc)) between

theorem read_written_T (m : Moment) : read (m.written 'T') = .ok m := by
  have hT : Reader.moment (Reader.mark 'T') (m.written 'T') = .ok m := by
    rw [written, Reader.moment_dateText _ _ (ends_cons (by decide) _), Reader.mark_cons]
    exact Reader.clockAfter_clockText m.date m.clock
  unfold read
  rw [hT]

/-- The first form does not fit a space, so the second is tried. -/
theorem read_written_space (m : Moment) : read (m.written ' ') = .ok m := by
  have hends : Ends (' ' :: clockText m.clock) := ends_cons (by decide) _
  have hT : Reader.moment (Reader.mark 'T') (m.written ' ') = .error .unexpected := by
    rw [written, Reader.moment_dateText _ _ hends]
    rfl
  have hblank : Text.trimStart (' ' :: clockText m.clock) = Text.trimStart (clockText m.clock) :=
    List.dropWhile_cons_of_pos (by decide)
  have hclock : Text.trimStart (clockText m.clock) = clockText m.clock := by
    unfold clockText
    rw [List.append_assoc, trimStart_padded]
  have hspace : Reader.moment (fun cs => .ok (Text.trimStart cs)) (m.written ' ') = .ok m := by
    rw [written, Reader.moment_dateText _ _ hends, hblank, hclock]
    exact Reader.clockAfter_clockText m.date m.clock
  unfold read
  rw [hT]
  exact hspace

end Moment

/-- A text with `T` in place of each space. -/
def withT (s : String) : String := s.map fun c => if c = ' ' then 'T' else c

/-- Only one character is a space. -/
theorem Moment.toList_withT (m : Moment) : (withT m.text).toList = m.written 'T' := by
  have hkeep {cs : List Char} (h : ∀ c ∈ cs, isWritten c = true) :
      (cs.map fun c => if c = ' ' then 'T' else c) = cs := by
    refine (List.map_congr_left fun c hc => ?_).trans (List.map_id cs)
    have hc := h c hc
    refine if_neg ?_
    rintro rfl
    exact absurd hc (by decide)
  unfold withT Moment.text
  rw [String.toList_map, String.toList_ofList, List.map_append, List.map_cons,
    hkeep fun _ => isWritten_of_mem_dateText, hkeep fun _ => isWritten_of_mem_clockText]
  rfl

end Backdate.Calendar

namespace Backdate.Anchor

open Calendar

theorem parse_of_toList {s : String} {between : Char} {m : Moment} (h : s.toList = m.written between)
    (hread : Moment.read (m.written between) = .ok m) : parse s = .ok ⟨m⟩ := by
  unfold parse
  simp only [h, m.trim_written, hread]

/-- A moment that is written is read back. -/
theorem parse_text (m : Moment) : parse m.text = .ok ⟨m⟩ :=
  parse_of_toList String.toList_ofList m.read_written_space

/-- **What is written is read back**: every anchor from its text, also with a `T` in place of the
space, and every moment that an event can have; so no two such moments are written alike. -/
theorem texts_read_back :
    (∀ a : Anchor, parse a.text = .ok a ∧ parse (withT a.text) = .ok a) ∧
    (∀ (a : Anchor) (t : EventTime) (m : Moment), a.resolve t = .ok m → parse m.text = .ok ⟨m⟩) ∧
    ∀ (a a' : Anchor) (t t' : EventTime) (m m' : Moment), a.resolve t = .ok m →
      a'.resolve t' = .ok m' → m.text = m'.text → m = m' := by
  refine ⟨fun a => ⟨parse_text a.start, ?_⟩, fun _ _ m _ => parse_text m, ?_⟩
  · exact parse_of_toList a.start.toList_withT a.start.read_written_T
  · intro a a' t t' m m' _ _ htext
    have hparse := parse_text m
    rw [htext, parse_text m'] at hparse
    cases hparse
    rfl

/-- A leap second in the first year of the calendar. -/
theorem first_year_read_back :
    let a : Anchor := ⟨⟨⟨-262143, 6, 30, by decide⟩, ⟨23, 59, 60, by decide, by decide, by decide⟩⟩⟩
    a.resolve ⟨0, 9, 0⟩ = .ok a.start ∧ parse "-262143-06-30 23:59:60" = .ok a ∧
      parse "-262143-06-30T23:59:60" = .ok a := by
  intro a
  have htext : a.text = "-262143-06-30 23:59:60" := by decide +kernel
  have hT : withT a.text = "-262143-06-30T23:59:60" := by decide +kernel
  have hstart : a.resolve ⟨0, 9, 0⟩ = .ok a.start := by decide +kernel
  have hspace := texts_read_back.2.1 a ⟨0, 9, 0⟩ a.start hstart
  exact ⟨hstart, htext ▸ hspace, hT ▸ (texts_read_back.1 a).2⟩

end Backdate.Anchor
