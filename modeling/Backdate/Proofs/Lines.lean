import Backdate.Tool.Outcome
import Mathlib.Data.List.Basic
import Mathlib.Data.List.TakeWhile

/-!
# Texts line by line

A text is one line without a newline, or such a line, a newline and a further
text (`induction_lines`). Two equations say what its lines are in either case
(`lines_of_not_mem`, `lines_append_newline`), and what is told of a failure is
read off them:

* `line_of_mem_lines`: a line is part of its text, and has no newline in it;
* `gistOf_eq_none_iff`: nothing is told if and only if the text is blank;
* `gistOf_append_newline`, `gistOf_append`, `gistOf_blank_append`: what is told is
  told by the first part that is not blank, and what stands before or after that
  part does not matter;
* `FirstShown.gistOf_eq`, `gistOf_split`: what is told is the first line that is not
  blank, trimmed, and so it is on one line, and not empty (`gistOf_some`).
-/

namespace Backdate.Text

variable {cs l rest : List Char}

/-! ## Blanks -/

theorem trimStart_cons {c : Char} (h : isBlank c = false) (cs : List Char) :
    trimStart (c :: cs) = c :: cs := by
  unfold trimStart
  rw [List.dropWhile_cons_of_neg (by rw [h]; decide)]

theorem trimEnd_eq_nil_iff : trimEnd cs = [] ↔ cs.all isBlank = true := by
  unfold trimEnd
  rw [List.reverse_eq_nil_iff, List.dropWhile_eq_nil_iff]
  simp

theorem all_trimStart (cs : List Char) : (trimStart cs).all isBlank = cs.all isBlank := by
  have hskipped : (cs.takeWhile isBlank).all isBlank = true := List.all_takeWhile
  have hsplit : cs.takeWhile isBlank ++ trimStart cs = cs := List.takeWhile_append_dropWhile
  calc (trimStart cs).all isBlank
      = (cs.takeWhile isBlank ++ trimStart cs).all isBlank := by
        rw [List.all_append, hskipped, Bool.true_and]
    _ = cs.all isBlank := by rw [hsplit]

/-- Nothing is left if and only if all is blank. -/
theorem trim_eq_nil_iff : trim cs = [] ↔ cs.all isBlank = true := by
  unfold trim
  rw [trimEnd_eq_nil_iff, all_trimStart]

theorem trim_ne_nil_iff : trim cs ≠ [] ↔ cs.all isBlank = false := by
  rw [Ne, trim_eq_nil_iff, Bool.not_eq_true]

theorem trimEnd_append_blank {bs : List Char} (h : bs.all isBlank = true) (cs : List Char) :
    trimEnd (cs ++ bs) = trimEnd cs := by
  have hblank : ∀ b ∈ bs.reverse, isBlank b = true := by
    intro b hb
    exact List.all_eq_true.1 h b (List.mem_reverse.1 hb)
  unfold trimEnd
  rw [List.reverse_append, List.dropWhile_append_of_pos hblank]

/-- Blanks at the end do not matter. -/
theorem trim_append_blank {bs : List Char} (h : bs.all isBlank = true) (cs : List Char) :
    trim (cs ++ bs) = trim cs := by
  by_cases hcs : cs.all isBlank = true
  · have hboth : (cs ++ bs).all isBlank = true := by rw [List.all_append, hcs, h]; rfl
    rw [trim_eq_nil_iff.2 hboth, trim_eq_nil_iff.2 hcs]
  · have hleft : ¬ (cs.dropWhile isBlank).isEmpty = true := by
      rw [List.isEmpty_iff, List.dropWhile_eq_nil_iff, ← List.all_eq_true]
      exact hcs
    have hstart : trimStart (cs ++ bs) = trimStart cs ++ bs := by
      unfold trimStart
      rw [List.dropWhile_append, if_neg hleft]
    unfold trim
    rw [hstart, trimEnd_append_blank h]

/-- Whether a text begins with a blank. -/
def opensBlank : List Char → Bool
  | [] => false
  | c :: _ => isBlank c

/-- From a character that is not blank to another nothing is trimmed. -/
theorem prefix_trim {a : List Char} {c : Char} (ha : opensBlank a = false)
    (hc : isBlank c = false) (rest : List Char) : a ++ [c] <+: trim (a ++ c :: rest) := by
  have hstart : trimStart (a ++ c :: rest) = a ++ c :: rest := by
    cases a with
    | nil => exact trimStart_cons hc rest
    | cons x xs => exact trimStart_cons ha _
  have hkeep : (c :: a.reverse).dropWhile isBlank = c :: a.reverse :=
    List.dropWhile_cons_of_neg (by rw [hc]; decide)
  unfold trim trimEnd
  rw [hstart, List.reverse_append, List.reverse_cons, List.append_assoc, List.singleton_append,
    List.dropWhile_append, hkeep]
  split
  · exact ⟨[], by simp⟩
  · exact ⟨(rest.reverse.dropWhile isBlank).reverse, by simp⟩

theorem trimEnd_split (cs : List Char) : ∃ bs, bs.all isBlank = true ∧ cs = trimEnd cs ++ bs := by
  have hrev : cs.reverse.takeWhile isBlank ++ cs.reverse.dropWhile isBlank = cs.reverse :=
    List.takeWhile_append_dropWhile
  refine ⟨(cs.reverse.takeWhile isBlank).reverse, ?_, ?_⟩
  · rw [List.all_reverse, List.all_takeWhile]
  · have hsplit := congrArg List.reverse hrev
    rw [List.reverse_append, List.reverse_reverse] at hsplit
    exact hsplit.symm

/-- Nothing but blanks is trimmed. -/
theorem trim_split (cs : List Char) : ∃ before after, before.all isBlank = true ∧
    after.all isBlank = true ∧ cs = before ++ trim cs ++ after := by
  have hstart : cs.takeWhile isBlank ++ trimStart cs = cs := List.takeWhile_append_dropWhile
  obtain ⟨after, hafter, hend⟩ := trimEnd_split (trimStart cs)
  refine ⟨cs.takeWhile isBlank, after, List.all_takeWhile, hafter, ?_⟩
  calc cs = cs.takeWhile isBlank ++ trimStart cs := hstart.symm
    _ = cs.takeWhile isBlank ++ (trimEnd (trimStart cs) ++ after) := by rw [← hend]
    _ = cs.takeWhile isBlank ++ trim cs ++ after := (List.append_assoc _ _ _).symm

/-- What is trimmed is part of the text. -/
theorem infix_trim (cs : List Char) : trim cs <:+: cs := by
  obtain ⟨before, after, -, -, hcs⟩ := trim_split cs
  exact ⟨before, after, hcs.symm⟩

/-! ## Texts without a character -/

/-- What is in neither the parts of a list nor the separator is not in the list. -/
theorem not_mem_intercalate {α : Type} {c : α} {separator : List α} {parts : List (List α)}
    (hseparator : c ∉ separator) (h : ∀ part ∈ parts, c ∉ part) :
    c ∉ separator.intercalate parts := by
  induction parts with
  | nil => exact List.not_mem_nil
  | cons part parts ih =>
    obtain ⟨hpart, hparts⟩ := List.forall_mem_cons.1 h
    cases parts with
    | nil => rw [List.intercalate_singleton]; exact hpart
    | cons next parts =>
      rw [List.intercalate_cons_cons, List.mem_append, List.mem_append]
      exact not_or.2 ⟨not_or.2 ⟨hpart, hseparator⟩, ih hparts⟩

/-- A character does not occur in a text. -/
def Without (c : Char) (s : String) : Prop := c ∉ s.toList

instance (c : Char) (s : String) : Decidable (Without c s) :=
  inferInstanceAs (Decidable (c ∉ s.toList))

section Without

variable {c : Char} {s t : String}

theorem Without.append (hs : Without c s) (ht : Without c t) : Without c (s ++ t) := by
  unfold Without
  rw [String.toList_append, List.mem_append]
  exact not_or.2 ⟨hs, ht⟩

theorem Without.intercalate {separator : String} {parts : List String}
    (hseparator : Without c separator) (h : ∀ part ∈ parts, Without c part) :
    Without c (String.intercalate separator parts) := by
  unfold Without
  rw [String.toList_intercalate]
  refine not_mem_intercalate hseparator fun cs hcs => ?_
  obtain ⟨part, hpart, rfl⟩ := List.mem_map.1 hcs
  exact h part hpart

/-- A part of a text has no other characters. -/
theorem Without.of_infix (h : Without c s) (hl : l <:+: s.toList) :
    Without c (String.ofList l) := by
  unfold Without
  rw [String.toList_ofList]
  exact fun hmem => h (hl.subset hmem)

end Without

/-! ## Lines -/

/-- A line without the carriage return that belongs to its ending. -/
def chomp (l : List Char) : List Char := if l.getLast? = some '\r' then l.dropLast else l

theorem chomp_cons_cons (c d : Char) (l : List Char) : chomp (c :: d :: l) = c :: chomp (d :: l) := by
  unfold chomp
  rw [List.getLast?_cons_cons, List.dropLast_cons_cons]
  split <;> rfl

theorem chomp_cases (l : List Char) :
    l = chomp l ++ ['\r'] ∨ (chomp l = l ∧ ¬ ['\r'] <:+ l) := by
  unfold chomp
  split
  · next h => exact .inl (List.dropLast_append_getLast? _ h).symm
  · next h =>
    refine .inr ⟨rfl, ?_⟩
    rintro ⟨cs, rfl⟩
    exact h List.getLast?_concat

/-- A carriage return is blank, so it does not matter where blanks do not. -/
theorem chomp_append (l : List Char) : ∃ bs, bs.all isBlank = true ∧ l = chomp l ++ bs := by
  rcases chomp_cases l with h | ⟨h, -⟩
  · exact ⟨['\r'], by decide, h⟩
  · exact ⟨[], rfl, by rw [h, List.append_nil]⟩

theorem all_chomp (l : List Char) : (chomp l).all isBlank = l.all isBlank := by
  obtain ⟨bs, hbs, hl⟩ := chomp_append l
  calc (chomp l).all isBlank = (chomp l ++ bs).all isBlank := by
        rw [List.all_append, hbs, Bool.and_true]
    _ = l.all isBlank := by rw [← hl]

theorem trim_chomp (l : List Char) : trim (chomp l) = trim l := by
  obtain ⟨bs, hbs, hl⟩ := chomp_append l
  calc trim (chomp l) = trim (chomp l ++ bs) := (trim_append_blank hbs _).symm
    _ = trim l := by rw [← hl]

/-- **A text line by line**: the last line, which has no newline, or a line and what follows it. -/
@[elab_as_elim]
theorem induction_lines {P : List Char → Prop} (cs : List Char) (last : ∀ l, '\n' ∉ l → P l)
    (next : ∀ l rest, '\n' ∉ l → P rest → P (l ++ '\n' :: rest)) : P cs := by
  induction hn : cs.length using Nat.strongRecOn generalizing cs with
  | ind n ih =>
    by_cases hmem : '\n' ∈ cs
    · obtain ⟨l, rest, rfl, hl⟩ := List.eq_append_cons_of_mem hmem
      refine next l rest hl (ih rest.length ?_ rest rfl)
      rw [← hn, List.length_append, List.length_cons]
      omega
    · exact last cs hmem

theorem lines_cons {c : Char} (hc : c ≠ '\n') (hcs : ∀ rest, cs ≠ '\n' :: rest) :
    lines (c :: cs) =
      match lines cs with
      | [] => [[c]]
      | l :: ls => (c :: l) :: ls :=
  lines.eq_4 c cs hc fun rest _ heq => hcs rest heq

/-- A text without a newline is one line, if it is not empty. -/
theorem lines_of_not_mem (h : '\n' ∉ l) (hne : l ≠ []) : lines l = [l] := by
  induction l with
  | nil => exact absurd rfl hne
  | cons c l ih =>
    obtain ⟨hc, hl⟩ := List.ne_and_not_mem_of_not_mem_cons h
    have hnext : ∀ rest, l ≠ '\n' :: rest := by
      rintro rest rfl
      exact hl List.mem_cons_self
    rw [lines_cons hc.symm hnext]
    cases l with
    | nil => rfl
    | cons d l => rw [ih hl (List.cons_ne_nil d l)]

/-- The line before the first newline is the first line. -/
theorem lines_append_newline (h : '\n' ∉ l) (rest : List Char) :
    lines (l ++ '\n' :: rest) = chomp l :: lines rest := by
  induction l with
  | nil => rfl
  | cons c l ih =>
    obtain ⟨hc, hl⟩ := List.ne_and_not_mem_of_not_mem_cons h
    cases l with
    | cons d l =>
      have hnext : ∀ rest', d :: l ++ '\n' :: rest ≠ '\n' :: rest' := by
        intro rest' heq
        exact hl ((List.cons.inj heq).1 ▸ List.mem_cons_self)
      rw [List.cons_append, lines_cons hc.symm hnext, ih hl, chomp_cons_cons]
    | nil =>
      -- here a carriage return may belong to the ending
      by_cases hr : c = '\r'
      · subst hr; rfl
      · have hkept : chomp [c] = [c] := by simp [chomp, hr]
        rw [List.singleton_append, lines, hkept, lines]
        · exact hc.symm
        · intro cs' heq
          exact absurd heq hr

/-- A line has no newline in it, and is part of the text. -/
theorem line_of_mem_lines (h : l ∈ lines cs) : '\n' ∉ l ∧ l <:+: cs := by
  induction cs using induction_lines with
  | last text htext =>
    by_cases hne : text = []
    · subst hne
      exact absurd h List.not_mem_nil
    · rw [lines_of_not_mem htext hne, List.mem_singleton] at h
      subst h
      exact ⟨htext, List.infix_rfl⟩
  | next first rest hfirst ih =>
    rw [lines_append_newline hfirst] at h
    rcases List.mem_cons.1 h with rfl | h
    · obtain ⟨bs, -, hbs⟩ := chomp_append first
      have hchomp : chomp first <+: first := ⟨bs, hbs.symm⟩
      exact ⟨fun hmem => hfirst (hchomp.subset hmem),
        (hchomp.trans (List.prefix_append _ _)).isInfix⟩
    · obtain ⟨hline, hin⟩ := ih h
      have hrest : rest <:+ first ++ '\n' :: rest :=
        (List.suffix_cons _ _).trans (List.suffix_append _ _)
      exact ⟨hline, hin.trans hrest.isInfix⟩

theorem firstLine_spec (cs : List Char) : '\n' ∉ firstLine cs ∧ firstLine cs <:+: cs := by
  unfold firstLine
  cases h : lines cs with
  | nil => exact ⟨List.not_mem_nil, List.nil_infix⟩
  | cons l ls =>
    have hl : l ∈ lines cs := by rw [h]; exact List.mem_cons_self
    exact line_of_mem_lines hl

/-- A newline is blank. -/
theorem all_append_newline (l rest : List Char) :
    (l ++ '\n' :: rest).all isBlank = (l.all isBlank && rest.all isBlank) := by
  have hnewline : isBlank '\n' = true := by decide
  rw [List.all_append, List.all_cons, hnewline, Bool.true_and]

theorem allBlank_append (a b : String) : allBlank (a ++ b) = (allBlank a && allBlank b) := by
  unfold allBlank
  rw [String.toList_append, List.all_append]

theorem joinLines_cons_cons (a b : String) (parts : List String) :
    joinLines (a :: b :: parts) = a ++ "\n" ++ joinLines (b :: parts) :=
  String.intercalate_cons_cons

/-- Texts that are joined are blank if each of them is. -/
theorem allBlank_joinLines (parts : List String) :
    allBlank (joinLines parts) = parts.all allBlank := by
  induction parts with
  | nil => rfl
  | cons a parts ih =>
    cases parts with
    | nil =>
      have hone : joinLines [a] = a := String.intercalate_singleton
      rw [hone, List.all_cons, List.all_nil, Bool.and_true]
    | cons b parts =>
      have hnewline : allBlank "\n" = true := by decide
      rw [joinLines_cons_cons, allBlank_append, allBlank_append, hnewline, Bool.and_true, ih]
      rfl

/-! ## What is told of a failure -/

/-- The first line of a text that is not blank, without the blanks around it. -/
def gistOf (cs : List Char) : Option (List Char) :=
  ((lines cs).find? fun l => !l.all isBlank).map trim

theorem gist_eq (detail : String) :
    Outcome.gist detail = (gistOf detail.toList).map String.ofList := by
  unfold Outcome.gist gistOf
  rw [Option.map_map]; rfl

theorem gistOf_of_not_mem (h : '\n' ∉ l) :
    gistOf l = if l.all isBlank then none else some (trim l) := by
  unfold gistOf
  cases l with
  | nil => rfl
  | cons c l =>
    rw [lines_of_not_mem h (List.cons_ne_nil c l), List.find?_cons, List.find?_nil]
    cases (c :: l).all isBlank <;> rfl

/-- **A line that is not blank is told**, and after a blank one the search goes on. -/
theorem gistOf_append_newline (h : '\n' ∉ l) (rest : List Char) :
    gistOf (l ++ '\n' :: rest) = if l.all isBlank then gistOf rest else some (trim l) := by
  unfold gistOf
  rw [lines_append_newline h, List.find?_cons, all_chomp]
  cases l.all isBlank
  · rw [← trim_chomp l]; rfl
  · rfl

/-- **Nothing is told of a blank text only.** -/
theorem gistOf_eq_none_iff : gistOf cs = none ↔ cs.all isBlank = true := by
  induction cs using induction_lines with
  | last l h => rw [gistOf_of_not_mem h]; split <;> simp_all
  | next l rest h ih =>
    rw [gistOf_append_newline h, all_append_newline]
    split
    · next hl => rw [ih, hl]; simp
    · next hl => simp [hl]

/-- The lines of a blank text are blank. -/
theorem blank_of_mem_lines (h : cs.all isBlank = true) (hl : l ∈ lines cs) :
    l.all isBlank = true := by
  have hnone := gistOf_eq_none_iff.2 h
  unfold gistOf at hnone
  rw [Option.map_eq_none_iff, List.find?_eq_none] at hnone
  simpa using hnone l hl

/-- **What follows a part that is not blank does not matter.** -/
theorem gistOf_append (h : cs.all isBlank = false) (rest : List Char) :
    gistOf (cs ++ '\n' :: rest) = gistOf cs := by
  induction cs using induction_lines with
  | last l hl => rw [gistOf_append_newline hl, gistOf_of_not_mem hl, h]; rfl
  | next l more hl ih =>
    rw [List.append_assoc, List.cons_append, gistOf_append_newline hl, gistOf_append_newline hl]
    split
    · next hblank =>
      rw [all_append_newline, hblank] at h
      exact ih h
    · rfl

/-- **Nor does a blank part above a line.** -/
theorem gistOf_blank_append (h : cs.all isBlank = true) (rest : List Char) :
    gistOf (cs ++ '\n' :: rest) = gistOf rest := by
  induction cs using induction_lines with
  | last l hl => rw [gistOf_append_newline hl, if_pos h]
  | next l more hl ih =>
    rw [all_append_newline, Bool.and_eq_true] at h
    rw [List.append_assoc, List.cons_append, gistOf_append_newline hl, if_pos h.1, ih h.2]

/-- **The first line that is not blank**: above it are blanks that end in a newline, if anything,
and below it the text goes on from a newline, if it does. -/
structure FirstShown (above l below : List Char) : Prop where
  above_blank : above.all isBlank = true
  above_ends : above = [] ∨ ['\n'] <:+ above
  onLine : '\n' ∉ l
  shown : l.all isBlank = false
  below_begins : below = [] ∨ ['\n'] <+: below

/-- It stays the first under a blank line. -/
theorem FirstShown.under {first above below : List Char} (h : FirstShown above l below)
    (hfirst : first.all isBlank = true) : FirstShown (first ++ '\n' :: above) l below where
  above_blank := by rw [all_append_newline, hfirst, h.above_blank]; rfl
  above_ends := by
    refine .inr ?_
    rcases h.above_ends with rfl | hends
    · exact List.suffix_append _ _
    · exact (hends.trans (List.suffix_cons _ _)).trans (List.suffix_append _ _)
  onLine := h.onLine
  shown := h.shown
  below_begins := h.below_begins

/-- **The first line that is not blank is told.** -/
theorem FirstShown.gistOf_eq {above below : List Char} (h : FirstShown above l below) :
    gistOf (above ++ l ++ below) = some (trim l) := by
  have habove : gistOf (above ++ (l ++ below)) = gistOf (l ++ below) := by
    rcases h.above_ends with rfl | ⟨cs, rfl⟩
    · rfl
    · have hblank := h.above_blank
      rw [List.all_append, Bool.and_eq_true] at hblank
      rw [List.append_assoc, List.singleton_append, gistOf_blank_append hblank.1]
  rw [List.append_assoc, habove]
  rcases h.below_begins with rfl | ⟨more, rfl⟩
  · rw [List.append_nil, gistOf_of_not_mem h.onLine, h.shown]; rfl
  · rw [List.singleton_append, gistOf_append_newline h.onLine, h.shown]; rfl

/-- Nothing else is told. -/
theorem gistOf_split {line : List Char} (h : gistOf cs = some line) :
    ∃ above l below, cs = above ++ l ++ below ∧ FirstShown above l below ∧ line = trim l := by
  induction cs using induction_lines with
  | last l hl =>
    rw [gistOf_of_not_mem hl] at h
    split at h
    · cases h
    · next hblank =>
      obtain rfl := Option.some.inj h
      have hfirst : FirstShown [] l [] :=
        ⟨rfl, .inl rfl, hl, Bool.eq_false_iff.2 hblank, .inl rfl⟩
      exact ⟨[], l, [], (List.append_nil l).symm, hfirst, rfl⟩
  | next l rest hl ih =>
    rw [gistOf_append_newline hl] at h
    split at h
    · next hblank =>
      obtain ⟨above, line, below, rfl, hfirst, htrim⟩ := ih h
      refine ⟨l ++ '\n' :: above, line, below, ?_, hfirst.under hblank, htrim⟩
      simp only [List.append_assoc, List.cons_append]
    · next hblank =>
      obtain rfl := Option.some.inj h
      have hfirst : FirstShown [] l ('\n' :: rest) :=
        ⟨rfl, .inl rfl, hl, Bool.eq_false_iff.2 hblank, .inr ⟨rest, rfl⟩⟩
      exact ⟨[], l, '\n' :: rest, rfl, hfirst, rfl⟩

/-- What is told is one line of the text, trimmed, and not empty. -/
theorem gistOf_some {line : List Char} (h : gistOf cs = some line) :
    line ≠ [] ∧ '\n' ∉ line ∧ line <:+: cs := by
  obtain ⟨above, l, below, rfl, hfirst, rfl⟩ := gistOf_split h
  have hin : l <:+: above ++ l ++ below := ⟨above, below, rfl⟩
  have honLine : '\n' ∉ trim l := fun hmem => hfirst.onLine ((infix_trim l).subset hmem)
  exact ⟨trim_ne_nil_iff.2 hfirst.shown, honLine, (infix_trim l).trans hin⟩

/-- What begins a text on one line, and not with a blank, begins what is told. -/
theorem prefix_gistOf {a : List Char} {c : Char} (ha : '\n' ∉ a)
    (hhead : opensBlank a = false) (hc : isBlank c = false) (rest : List Char) :
    ∃ line, gistOf (a ++ c :: rest) = some line ∧ a ++ [c] <+: line := by
  have hshown : ∀ l, (a ++ c :: l).all isBlank = false := by
    intro l
    rw [List.all_append, List.all_cons, hc]; simp
  have honLine : ∀ l, '\n' ∉ l → '\n' ∉ a ++ c :: l := by
    intro l hl hmem
    rcases List.mem_append.1 hmem with hmem | hmem
    · exact ha hmem
    rcases List.mem_cons.1 hmem with rfl | hmem
    · exact absurd hc (by decide)
    · exact hl hmem
  by_cases hmem : '\n' ∈ rest
  · obtain ⟨l, more, rfl, hl⟩ := List.eq_append_cons_of_mem hmem
    refine ⟨trim (a ++ c :: l), ?_, prefix_trim hhead hc l⟩
    rw [← List.cons_append, ← List.append_assoc, gistOf_append_newline (honLine l hl), hshown]
    rfl
  · refine ⟨trim (a ++ c :: rest), ?_, prefix_trim hhead hc rest⟩
    rw [gistOf_of_not_mem (honLine rest hmem), hshown]
    rfl

end Backdate.Text

namespace Backdate.Outcome

open Text

theorem describe_eq (step detail : String) :
    describe (.failure step detail) = some (match gistOf detail.toList with
      | none => step ++ " failed"
      | some l => step ++ " failed: " ++ String.ofList l) := by
  simp only [describe, gist_eq]
  cases gistOf detail.toList <;> rfl

/-- A failure is described in the characters of its step, of what is told of its detail, and of the
words that it failed. -/
theorem without_describe {c : Char} {step detail : String} (hfailed : Without c " failed: ")
    (hstep : Without c step) (hgist : ∀ l, gistOf detail.toList = some l → c ∉ l) :
    ∀ line ∈ describe (.failure step detail), Without c line := by
  intro line hline
  rw [describe_eq, Option.mem_some_iff] at hline
  subst hline
  cases htold : gistOf detail.toList with
  | none =>
    have hin : " failed".toList <:+: " failed: ".toList := by decide
    have hbare : Without c " failed" := fun hmem => hfailed (hin.subset hmem)
    exact hstep.append hbare
  | some l =>
    have hl : Without c (String.ofList l) := by
      unfold Without
      rw [String.toList_ofList]
      exact hgist l htold
    exact (hstep.append hfailed).append hl

/-- The two forms of a description are never the same: one has a colon more. -/
theorem failed_line_ne (step line : String) : step ++ " failed: " ++ line ≠ step ++ " failed" := by
  intro heq
  have hlen := congrArg String.length heq
  have hmore : " failed".length < " failed: ".length := by decide
  simp only [String.length_append] at hlen
  omega

/-- **A failure is described by its step alone if and only if its detail is blank**; else by a line
that is not empty. -/
theorem describe_failure (step detail : String) :
    (describe (.failure step detail) = some (step ++ " failed") ↔ allBlank detail = true) ∧
      ((∃ line, line ≠ "" ∧ describe (.failure step detail) = some (step ++ " failed: " ++ line)) ↔
        allBlank detail = false) := by
  have hnone : gistOf detail.toList = none ↔ allBlank detail = true := gistOf_eq_none_iff
  rw [describe_eq]
  cases hgist : gistOf detail.toList with
  | none =>
    rw [hnone.1 hgist]
    refine ⟨iff_of_true rfl rfl, iff_of_false ?_ (by decide)⟩
    rintro ⟨line, -, heq⟩
    exact failed_line_ne step line (Option.some.inj heq).symm
  | some l =>
    have hblank : allBlank detail = false := by
      rw [← Bool.not_eq_true, ← hnone, hgist]; simp
    have hline : String.ofList l ≠ "" := by
      intro heq
      have hnil : l = [] := by rw [← String.toList_ofList (l := l), heq]; rfl
      exact (gistOf_some hgist).1 hnil
    rw [hblank]
    refine ⟨iff_of_false (fun heq => ?_) (by decide), iff_of_true ⟨_, hline, rfl⟩ rfl⟩
    exact failed_line_ne step _ (Option.some.inj heq)

end Backdate.Outcome
