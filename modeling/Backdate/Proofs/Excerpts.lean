import Backdate.Proofs.Lines
import Backdate.Render

/-!
# What is shown of a longer text

Of the detail of a failure, the first line that is not blank is told, without the
blanks around it, and of a blank detail nothing (`failure_told`). Of a message, the
longest beginning is shown that is on one line and has at most 60 characters
(`headline_longest`). Either is the only part of its text of which this holds.

A carriage return, U+0085 and U+2028 are blank, but end no line. Only a newline does,
and a carriage return directly before it belongs to the ending.

* `tight_trim`, `trim_append_tight`: trimming takes all blanks at the ends, so with
  `trim_split` it is known from the blanks around what it leaves;
* `gistOf_eq_some_iff`: what is told, by what stands above, beside and below it;
* `firstLine_split`: where the first line ends;
* `Cut.longest`: a beginning that is cut no earlier than it has to be is the longest.
-/

namespace Backdate.Text

variable {cs l line shown rest : List Char}

/-! ## What trimming leaves -/

/-- No blank at either end. -/
structure Tight (l : List Char) : Prop where
  opens : ∀ c ∈ l.head?, isBlank c = false
  closes : ∀ c ∈ l.getLast?, isBlank c = false

theorem trimStart_of_opens (h : ∀ c ∈ l.head?, isBlank c = false) : trimStart l = l := by
  cases l with
  | nil => rfl
  | cons c l => exact trimStart_cons (h c rfl) l

theorem trimEnd_of_closes (h : ∀ c ∈ l.getLast?, isBlank c = false) : trimEnd l = l := by
  have hrev : trimStart l.reverse = l.reverse :=
    trimStart_of_opens (by rwa [List.head?_reverse])
  calc trimEnd l = (trimStart l.reverse).reverse := rfl
    _ = l := by rw [hrev, List.reverse_reverse]

theorem opens_trimStart (cs : List Char) : ∀ c ∈ (trimStart cs).head?, isBlank c = false := by
  intro c hc
  have hfirst := List.head?_dropWhile_not isBlank cs
  unfold trimStart at hc
  rw [Option.mem_def.1 hc] at hfirst
  exact hfirst

theorem closes_trimEnd (cs : List Char) : ∀ c ∈ (trimEnd cs).getLast?, isBlank c = false := by
  intro c hc
  unfold trimEnd at hc
  rw [List.getLast?_reverse] at hc
  exact opens_trimStart cs.reverse c hc

/-- **No blank is left at an end.** -/
theorem tight_trim (cs : List Char) : Tight (trim cs) where
  opens := by
    intro c hc
    obtain ⟨bs, -, hbs⟩ := trimEnd_split (trimStart cs)
    have hhead : (trimStart cs).head? = some c := by
      have htrim : trimStart cs = trim cs ++ bs := hbs
      rw [htrim, List.head?_append, Option.mem_def.1 hc]
      rfl
    exact opens_trimStart cs c hhead
  closes := closes_trimEnd (trimStart cs)

/-- A text without blanks at its ends is what trimming leaves of it between blanks. -/
theorem trim_append_tight {before after : List Char} (hbefore : before.all isBlank = true)
    (hafter : after.all isBlank = true) (hl : Tight l) : trim (before ++ l ++ after) = l := by
  have hstart : trimStart (before ++ l) = trimStart l :=
    List.dropWhile_append_of_pos (List.all_eq_true.1 hbefore)
  rw [trim_append_blank hafter]
  unfold trim
  rw [hstart, trimStart_of_opens hl.opens, trimEnd_of_closes hl.closes]

/-! ## The first line that is not blank -/

/-- Blanks on one line. -/
structure Gap (cs : List Char) : Prop where
  blank : cs.all isBlank = true
  onLine : '\n' ∉ cs

/-- **The first line of a text that is not blank**, without the blanks around it: above it are
blanks that end in a newline, if anything; beside it are blanks only; below it the text goes on
from a newline, if it does. -/
structure Foremost (above before line after below : List Char) : Prop where
  above_blank : above.all isBlank = true
  above_ends : above = [] ∨ ['\n'] <:+ above
  before : Gap before
  nonempty : line ≠ []
  onLine : '\n' ∉ line
  tight : Tight line
  after : Gap after
  below_begins : below = [] ∨ ['\n'] <+: below

/-- A line stands as the first in a text that is not blank. -/
def IsForemost (line text : List Char) : Prop :=
  ∃ above before after below, text = above ++ before ++ line ++ after ++ below ∧
    Foremost above before line after below

theorem FirstShown.isForemost {above below : List Char} (h : FirstShown above l below) :
    IsForemost (trim l) (above ++ l ++ below) := by
  obtain ⟨before, after, hbefore, hafter, hsplit⟩ := trim_split l
  have honLine : '\n' ∉ before ++ trim l ++ after := hsplit ▸ h.onLine
  rw [List.mem_append, List.mem_append, not_or, not_or] at honLine
  refine ⟨above, before, after, below, ?_, ?_⟩
  · calc above ++ l ++ below = above ++ (before ++ trim l ++ after) ++ below := by rw [← hsplit]
      _ = above ++ before ++ trim l ++ after ++ below := by simp only [List.append_assoc]
  · exact
      { above_blank := h.above_blank
        above_ends := h.above_ends
        before := ⟨hbefore, honLine.1.1⟩
        nonempty := trim_ne_nil_iff.2 h.shown
        onLine := honLine.1.2
        tight := tight_trim l
        after := ⟨hafter, honLine.2⟩
        below_begins := h.below_begins }

section Foremost

variable {above before after below : List Char}

theorem Foremost.trim_eq (h : Foremost above before line after below) :
    trim (before ++ line ++ after) = line :=
  trim_append_tight h.before.blank h.after.blank h.tight

theorem Foremost.firstShown (h : Foremost above before line after below) :
    FirstShown above (before ++ line ++ after) below where
  above_blank := h.above_blank
  above_ends := h.above_ends
  onLine := by
    rw [List.mem_append, List.mem_append, not_or, not_or]
    exact ⟨⟨h.before.onLine, h.onLine⟩, h.after.onLine⟩
  shown := by
    rw [← trim_ne_nil_iff, h.trim_eq]
    exact h.nonempty
  below_begins := h.below_begins

end Foremost

/-- **What is told is the first line that is not blank**, and no other part of the text. -/
theorem gistOf_eq_some_iff : gistOf cs = some line ↔ IsForemost line cs := by
  constructor
  · intro h
    obtain ⟨above, l, below, rfl, hfirst, rfl⟩ := gistOf_split h
    exact hfirst.isForemost
  · rintro ⟨above, before, after, below, rfl, h⟩
    calc gistOf (above ++ before ++ line ++ after ++ below)
        = gistOf (above ++ (before ++ line ++ after) ++ below) := by
          simp only [List.append_assoc]
      _ = some (trim (before ++ line ++ after)) := h.firstShown.gistOf_eq
      _ = some line := by rw [h.trim_eq]

/-! ## The longest beginning on one line -/

/-- A beginning of a text that may be shown on a line, and the rest: it has no newline in it, and
no carriage return that belongs to one. -/
structure Opening (shown rest : List Char) : Prop where
  onLine : '\n' ∉ shown
  whole : ['\r'] <:+ shown → ¬ ['\n'] <+: rest

/-- Where a line ends: the text does too, or there is a newline, or one with a carriage return. -/
def LineEnds (rest : List Char) : Prop := rest = [] ∨ ['\n'] <+: rest ∨ ['\r', '\n'] <+: rest

/-- **A beginning that is cut to a width**, and no earlier than it has to be. -/
structure Cut (width : Nat) (shown rest : List Char) : Prop extends Opening shown rest where
  fits : shown.length ≤ width
  late : shown.length = width ∨ LineEnds rest

theorem firstLine_of_not_mem (h : '\n' ∉ l) : firstLine l = l := by
  unfold firstLine
  cases l with
  | nil => rfl
  | cons c l => rw [lines_of_not_mem h (List.cons_ne_nil c l)]; rfl

/-- **The first line**, up to where it ends. -/
theorem firstLine_split (cs : List Char) :
    ∃ rest, cs = firstLine cs ++ rest ∧ Opening (firstLine cs) rest ∧ LineEnds rest := by
  have honLine := (firstLine_spec cs).1
  induction cs using induction_lines with
  | last l hl =>
    rw [firstLine_of_not_mem hl] at honLine ⊢
    have hwhole : ['\r'] <:+ l → ¬ ['\n'] <+: [] := fun _ => by simp
    exact ⟨[], (List.append_nil l).symm, ⟨honLine, hwhole⟩, .inl rfl⟩
  | next l more hl _ =>
    have hfirst : firstLine (l ++ '\n' :: more) = chomp l := by
      unfold firstLine
      rw [lines_append_newline hl]; rfl
    rw [hfirst] at honLine ⊢
    rcases chomp_cases l with hreturn | ⟨hkept, hbare⟩
    · have hsplit : l ++ '\n' :: more = chomp l ++ '\r' :: '\n' :: more := by
        conv_lhs => rw [hreturn]
        rw [List.append_assoc, List.singleton_append]
      have hwhole : ['\r'] <:+ chomp l → ¬ ['\n'] <+: '\r' :: '\n' :: more := fun _ => by simp
      exact ⟨_, hsplit, ⟨honLine, hwhole⟩, .inr (.inr ⟨more, rfl⟩)⟩
    · have hwhole : ['\r'] <:+ chomp l → ¬ ['\n'] <+: '\n' :: more := by
        rw [hkept]
        exact fun hend => absurd hend hbare
      exact ⟨'\n' :: more, by rw [hkept], ⟨honLine, hwhole⟩, .inr (.inl ⟨more, rfl⟩)⟩

/-- A line that is cut to a width. -/
theorem cut_take (width : Nat) (h : Opening l rest) (hends : LineEnds rest) :
    Cut width (l.take width) (l.drop width ++ rest) := by
  by_cases hlen : l.length ≤ width
  · rw [List.take_of_length_le hlen, List.drop_of_length_le hlen, List.nil_append]
    exact { h with fits := hlen, late := .inr hends }
  · have hwidth : (l.take width).length = width := List.length_take_of_le (by omega)
    -- the next character is one of the line, so no newline
    have hnext : ¬ ['\n'] <+: l.drop width ++ rest := by
      cases hdrop : l.drop width with
      | nil =>
        rw [List.drop_eq_nil_iff] at hdrop
        exact absurd hdrop hlen
      | cons c more =>
        rintro ⟨_, heq⟩
        have hc : '\n' = c := (List.cons.inj heq).1
        have hmem : '\n' ∈ l.drop width := by rw [hdrop, hc]; exact List.mem_cons_self
        exact h.onLine (List.mem_of_mem_drop hmem)
    exact
      { onLine := fun hmem => h.onLine (List.mem_of_mem_take hmem)
        whole := fun _ => hnext
        fits := hwidth.le
        late := .inl hwidth }

/-- **Nothing longer can be shown** than what is cut no earlier than it has to be. -/
theorem Cut.longest {width : Nat} {shown' rest' : List Char} (h : Cut width shown rest)
    (h' : Opening shown' rest') (hfits : shown'.length ≤ width)
    (heq : shown ++ rest = shown' ++ rest') : shown' <+: shown := by
  have hshown : shown <+: shown' ++ rest' := ⟨rest, heq⟩
  have hshown' : shown' <+: shown' ++ rest' := List.prefix_append _ _
  rcases Nat.le_total shown'.length shown.length with hlen | hlen
  · exact List.prefix_of_prefix_length_le hshown' hshown hlen
  obtain ⟨more, rfl⟩ := List.prefix_of_prefix_length_le hshown hshown' hlen
  rw [List.append_assoc, List.append_cancel_left_eq] at heq
  subst heq
  cases more with
  | nil => exact ⟨[], by rw [List.append_nil, List.append_nil]⟩
  | cons c more =>
    -- a longer one is too long, or goes on over the end of the line
    exfalso
    rcases h.late with hwidth | hnil | ⟨_, hnewline⟩ | ⟨_, hreturn⟩
    · rw [List.length_append, List.length_cons] at hfits
      omega
    · cases hnil
    · have hc : '\n' = c := (List.cons.inj hnewline).1
      exact h'.onLine (hc ▸ List.mem_append_right _ List.mem_cons_self)
    · obtain ⟨hc, hnext⟩ := List.cons.inj hreturn
      subst hc
      cases more with
      | nil => exact h'.whole (List.suffix_append _ _) ⟨_, hnext⟩
      | cons d more =>
        have hd : '\n' = d := (List.cons.inj hnext).1
        refine h'.onLine (List.mem_append_right _ (List.mem_cons_of_mem _ ?_))
        exact hd ▸ List.mem_cons_self

/-- Only one beginning is the longest. -/
theorem Cut.unique {width : Nat} {shown' rest' : List Char} (h : Cut width shown rest)
    (h' : Cut width shown' rest') (heq : shown ++ rest = shown' ++ rest') : shown = shown' := by
  have hle : shown' <+: shown := h.longest h'.toOpening h'.fits heq
  have hge : shown <+: shown' := h'.longest h.toOpening h.fits heq.symm
  exact hge.eq_of_length_le hle.length_le

/-- Of what is shown, all is shown. -/
theorem Cut.again {width : Nat} (h : Cut width shown rest) : Cut width shown [] :=
  { h with whole := fun _ => by simp, late := .inr (.inl rfl) }

end Backdate.Text

namespace Backdate

open Text

/-! ## What is told of a failure -/

namespace Outcome

variable {step detail line : String}

theorem describe_eq_line_iff :
    describe (.failure step detail) = some (step ++ " failed: " ++ line) ↔
      gistOf detail.toList = some line.toList := by
  rw [describe_eq, Option.some_inj]
  cases gistOf detail.toList with
  | none => exact iff_of_false (failed_line_ne step line).symm (by simp)
  | some l =>
    rw [Option.some_inj]
    constructor
    · intro heq
      have hline : String.ofList l = line := (String.append_right_inj (step ++ " failed: ")).1 heq
      rw [← hline, String.toList_ofList]
    · rintro rfl
      have hline : String.ofList line.toList = line := String.ofList_toList
      exact congrArg (step ++ " failed: " ++ ·) hline

/-- **A failure is told by the first line of its detail that is not blank**, without the blanks
around it, and by its step alone if the detail is blank. -/
theorem failure_told (step detail : String) :
    (describe (.failure step detail) = some (step ++ " failed") ↔ allBlank detail = true) ∧
      (allBlank detail = false ↔ ∃ line : String, IsForemost line.toList detail.toList ∧
        describe (.failure step detail) = some (step ++ " failed: " ++ line)) ∧
      ∀ line : String, describe (.failure step detail) = some (step ++ " failed: " ++ line) ↔
        IsForemost line.toList detail.toList := by
  obtain ⟨hbare, hlined⟩ := describe_failure step detail
  have htold : ∀ line : String,
      describe (.failure step detail) = some (step ++ " failed: " ++ line) ↔
        IsForemost line.toList detail.toList := fun line =>
    describe_eq_line_iff.trans gistOf_eq_some_iff
  refine ⟨hbare, ?_, htold⟩
  rw [← hlined]
  constructor
  · rintro ⟨line, -, hline⟩
    exact ⟨line, (htold line).1 hline, hline⟩
  · rintro ⟨line, hfirst, hline⟩
    obtain ⟨above, before, after, below, -, hparts⟩ := hfirst
    have hne : line ≠ "" := by
      rintro rfl
      exact hparts.nonempty rfl
    exact ⟨line, hne, hline⟩

/-- Characters that are blank but end no line are passed over with the blank lines they stand on,
and taken from the ends of the line that is told. -/
example : describe (.failure "commit" "\r\n\u2028\r \n\u0085 no\rchange\u2028\r\nmore") =
    some "commit failed: no\rchange" := by decide +kernel

end Outcome

/-! ## The headline of a message -/

theorem headline_cut (message : String) :
    ∃ rest, message.toList = (headline message).toList ++ rest ∧
      Cut headlineWidth (headline message).toList rest := by
  obtain ⟨rest, hsplit, hopening, hends⟩ := firstLine_split message.toList
  have hshown : (headline message).toList = (firstLine message.toList).take headlineWidth :=
    String.toList_ofList
  refine ⟨(firstLine message.toList).drop headlineWidth ++ rest, ?_, ?_⟩
  · rw [hshown, ← List.append_assoc, List.take_append_drop, ← hsplit]
  · rw [hshown]
    exact cut_take headlineWidth hopening hends

theorem headline_eq_iff (message shown : String) :
    headline message = shown ↔
      ∃ rest, message.toList = shown.toList ++ rest ∧ Cut headlineWidth shown.toList rest := by
  constructor
  · rintro rfl
    exact headline_cut message
  · rintro ⟨rest, hsplit, hcut⟩
    obtain ⟨rest', hsplit', hcut'⟩ := headline_cut message
    exact String.toList_inj.1 (hcut'.unique hcut (hsplit'.symm.trans hsplit))

/-- **A headline is the longest beginning of its message** that is on one line and has at most 60
characters, and it is its own headline. -/
theorem headline_longest (message : String) :
    (∀ shown, headline message = shown ↔
      ∃ rest, message.toList = shown.toList ++ rest ∧ Cut 60 shown.toList rest) ∧
    headline (headline message) = headline message := by
  refine ⟨headline_eq_iff message, (headline_eq_iff _ _).2 ?_⟩
  obtain ⟨rest, -, hcut⟩ := headline_cut message
  exact ⟨[], (List.append_nil _).symm, hcut.again⟩

/-- Of two carriage returns before a newline, the first is part of the line. -/
example : headline "a\r\r\nb" = "a\r" := by decide

end Backdate
