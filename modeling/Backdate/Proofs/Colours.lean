import Backdate.Proofs.Lines
import Backdate.Proofs.Spelling
import Backdate.Render

/-!
# Colours

Colours are decoration. If no text of a report or of a summary has an escape
character, then what is shown with colours, less the style sequences, is what is
shown without (`colour_is_decoration`).

* `unstyle`: the reader that drops each sequence from an escape character and a
  bracket to the next `m`;
* `Decorates`: one text read before any other leaves another text. Texts without an
  escape character leave themselves, painted ones what they were painted over
  (`decorates_paint`), and what is made of several such texts is read part by part
  (`Decorates.append`, `Decorates.join`).
-/

namespace Backdate

namespace Text

/-! ## Reading without styles -/

/-- A text without its style sequences; `inside` tells that one has begun. -/
def unstyle : (inside : Bool) → List Char → List Char
  | _, [] => []
  | true, c :: cs => unstyle (c != 'm') cs
  | false, '\x1b' :: '[' :: cs => unstyle true cs
  | false, c :: cs => c :: unstyle false cs

/-- A text with every style sequence deleted. -/
def unstyled (s : String) : String := String.ofList (unstyle false s.toList)

theorem unstyle_cons {c : Char} (hc : c ≠ '\x1b') (cs : List Char) :
    unstyle false (c :: cs) = c :: unstyle false cs := by
  rw [unstyle]
  rintro cs rfl -
  exact hc rfl

/-- Without an escape character nothing is dropped. -/
theorem unstyle_append {cs : List Char} (h : '\x1b' ∉ cs) (rest : List Char) :
    unstyle false (cs ++ rest) = cs ++ unstyle false rest := by
  induction cs with
  | nil => rfl
  | cons c cs ih =>
    obtain ⟨hc, hcs⟩ := List.ne_and_not_mem_of_not_mem_cons h
    rw [List.cons_append, unstyle_cons hc.symm, ih hcs, List.cons_append]

/-- A sequence goes on to the next `m`. -/
theorem unstyle_inside {codes : List Char} (h : 'm' ∉ codes) (rest : List Char) :
    unstyle true (codes ++ 'm' :: rest) = unstyle false rest := by
  induction codes with
  | nil => rfl
  | cons c codes ih =>
    obtain ⟨hc, hcodes⟩ := List.ne_and_not_mem_of_not_mem_cons h
    have hgoes : (c != 'm') = true := by simpa using hc.symm
    rw [List.cons_append, unstyle, hgoes, ih hcodes]

theorem unstyle_on {style : Style} (h : Without 'm' style.codes) (rest : List Char) :
    unstyle false (style.on ++ rest) = unstyle false rest := by
  have hon : style.on ++ rest = '\x1b' :: '[' :: (style.codes.toList ++ 'm' :: rest) := by
    simp [Style.on]
  rw [hon, unstyle, unstyle_inside h]

/-- A text that never turns styles off is painted as it is. -/
theorem resume_of_notMem {cs : List Char} (h : '\x1b' ∉ cs) (again : List Char) :
    resume again cs = cs := by
  induction cs with
  | nil => rfl
  | cons c cs ih =>
    obtain ⟨hc, hcs⟩ := List.ne_and_not_mem_of_not_mem_cons h
    rw [resume, ih hcs]
    rintro cs rfl -
    exact hc rfl

/-! ## Decoration -/

/-- Whatever follows, one text less its style sequences is the other. The reader is outside of a
sequence again at the end, so such texts can be put together. -/
def Decorates (coloured plain : String) : Prop :=
  ∀ rest, unstyle false (coloured.toList ++ rest) = plain.toList ++ unstyle false rest

theorem Decorates.unstyled_eq {coloured plain : String} (h : Decorates coloured plain) :
    unstyled coloured = plain := by
  have hall := h []
  rw [List.append_nil, unstyle, List.append_nil] at hall
  unfold unstyled
  rw [hall, String.ofList_toList]

theorem Without.decorates {s : String} (h : Without '\x1b' s) : Decorates s s := unstyle_append h

theorem Decorates.append {a b c d : String} (h : Decorates a b) (h' : Decorates c d) :
    Decorates (a ++ c) (b ++ d) := by
  intro rest
  rw [String.toList_append, String.toList_append, List.append_assoc, h, h', List.append_assoc]

theorem Decorates.join {α : Type} {xs : List α} {f g : α → String}
    (h : ∀ x ∈ xs, Decorates (f x) (g x)) :
    Decorates (String.join (xs.map f)) (String.join (xs.map g)) := by
  induction xs with
  | nil => exact fun rest => rfl
  | cons x xs ih =>
    obtain ⟨hx, hxs⟩ := List.forall_mem_cons.1 h
    rw [List.map_cons, List.map_cons, String.join_cons, String.join_cons]
    exact hx.append (ih hxs)

/-- **A painted text decorates the text itself**, even an empty one. -/
theorem decorates_paint (style : Style) (hstyle : Without 'm' style.codes) {text : String}
    (h : Without '\x1b' text) : Decorates (paint true style text) (paint false style text) := by
  intro rest
  have hpaint : (paint true style text).toList ++ rest =
      style.on ++ (text.toList ++ ('\x1b' :: '[' :: '0' :: 'm' :: rest)) := by
    unfold paint
    rw [if_pos rfl, String.toList_ofList, resume_of_notMem h]
    simp
  have hoff : unstyle false ('\x1b' :: '[' :: '0' :: 'm' :: rest) = unstyle false rest := rfl
  rw [hpaint, unstyle_on hstyle, unstyle_append h, hoff]
  rfl

end Text

/-! ## Reports -/

/-- The texts that an outcome is made of. -/
def Outcome.texts : Outcome → List String
  | .success => []
  | .failure step detail => [step, detail]

theorem Outcome.without_texts {o : Outcome} (h : ∀ s ∈ o.texts, Text.Without '\x1b' s) :
    ∀ line ∈ o.describe, Text.Without '\x1b' line := by
  cases o with
  | success =>
    intro line hline
    cases hline
  | failure step detail =>
    have hstep : Text.Without '\x1b' step := h step (by simp [texts])
    have hdetail : Text.Without '\x1b' detail := h detail (by simp [texts])
    exact without_describe (by decide) hstep fun l htold hmem =>
      hdetail ((Text.gistOf_some htold).2.2.subset hmem)

/-- A headline is part of its message. -/
theorem without_headline {c : Char} {message : String} (h : Text.Without c message) :
    Text.Without c (headline message) := by
  have hcut : (Text.firstLine message.toList).take headlineWidth <+: Text.firstLine message.toList :=
    List.take_prefix _ _
  exact h.of_infix (hcut.isInfix.trans (Text.firstLine_spec message.toList).2)

namespace Report

variable {report : Report}

/-- The texts that a report is made of. -/
def texts (report : Report) : List String := report.label :: report.outcome.texts ++ report.warnings

theorem decorates_mark (report : Report) :
    Text.Decorates (report.mark true) (report.mark false) := by
  unfold mark
  cases report.succeeded
  · exact Text.decorates_paint .boldRed (by decide) (by decide)
  · cases report.kind <;> exact Text.decorates_paint _ (by decide) (by decide)

theorem without_body (h : Text.Without '\x1b' report.label) : Text.Without '\x1b' report.body := by
  have hauthor : Text.Without '\x1b' (report.author.text ++ ": ") := by
    cases report.author <;> decide
  have htagged : Text.Without '\x1b' "Tagged " := by decide
  unfold body
  cases report.kind with
  | change => exact hauthor.append (without_headline h)
  | deletion => exact hauthor.append (without_headline h)
  | merge => exact h
  | tag => exact htagged.append h

theorem decorates_status (h : Text.Without '\x1b' report.label) :
    Text.Decorates
      (report.mark true ++ " [" ++ Text.paint true .dimmed report.timestamp.text ++ "] " ++ report.body)
      (report.mark false ++ " [" ++ Text.paint false .dimmed report.timestamp.text ++ "] " ++
        report.body) := by
  have hopen : Text.Without '\x1b' " [" := by decide
  have hclose : Text.Without '\x1b' "] " := by decide
  have hmoment : Text.Without '\x1b' report.timestamp.text :=
    Calendar.Moment.notMem_text report.timestamp (by decide) (by decide)
  have hpainted := Text.decorates_paint .dimmed (by decide) hmoment
  have hbody := (without_body h).decorates
  exact ((((decorates_mark report).append hopen.decorates).append hpainted).append
    hclose.decorates).append hbody

/-- **A report is decorated**, piece by piece. -/
theorem decorates_render (h : ∀ s ∈ report.texts, Text.Without '\x1b' s) :
    Text.Decorates (report.render true) (report.render false) := by
  have hlabel : Text.Without '\x1b' report.label := h _ (by simp [texts])
  have houtcome : ∀ s ∈ report.outcome.texts, Text.Without '\x1b' s := by
    intro s hs
    exact h s (by simp [texts, hs])
  have hindent : Text.Without '\x1b' "\n    " := by decide
  have hspace : Text.Without '\x1b' " " := by decide
  have hmark : Text.Without '\x1b' "!" := by decide
  have hbang := Text.decorates_paint .yellow (by decide) hmark
  have hwarning : ∀ w ∈ report.warnings, Text.Decorates
      ("\n    " ++ Text.paint true .yellow "!" ++ " " ++ Text.paint true .dimmed w)
      ("\n    " ++ Text.paint false .yellow "!" ++ " " ++ Text.paint false .dimmed w) := by
    intro w hw
    have hpainted := Text.decorates_paint .dimmed (by decide) (h w (by simp [texts, hw]))
    exact ((hindent.decorates.append hbang).append hspace.decorates).append hpainted
  have hfailure : ∀ line ∈ report.outcome.describe.toList, Text.Decorates
      ("\n    " ++ Text.paint true .red line) ("\n    " ++ Text.paint false .red line) := by
    intro line hline
    have hplain := Outcome.without_texts houtcome line (Option.mem_toList.1 hline)
    exact hindent.decorates.append (Text.decorates_paint .red (by decide) hplain)
  exact ((decorates_status hlabel).append (Text.Decorates.join hwarning)).append
    (Text.Decorates.join hfailure)

end Report

/-! ## Summaries -/

theorem without_repr {c : Char} (hc : c.isDigit = false) (n : Nat) : Text.Without c n.repr := by
  unfold Text.Without
  rw [Nat.toList_repr]
  intro hmem
  rw [Nat.isDigit_of_mem_toDigits (by omega) (by omega) hmem] at hc
  cases hc

theorem without_rule {c : Char} (hc : c ≠ '=') : Text.Without c rule := by
  unfold Text.Without rule
  rw [String.toList_ofList]
  exact fun hmem => hc (List.eq_of_mem_replicate hmem)

namespace Summary

variable {s : Summary}

theorem decorates_heading (s : Summary) :
    Text.Decorates (s.heading true) (s.heading false) := by
  have hbefore : Text.Without '\x1b' "✗ History replayed with " := by decide
  have hafter : Text.Without '\x1b' " failed event(s)" := by decide
  have hcount : Text.Without '\x1b' s.failures.repr := without_repr (by decide) _
  unfold heading
  split
  · exact Text.decorates_paint .boldGreen (by decide) (by decide)
  · exact Text.decorates_paint .boldYellow (by decide) ((hbefore.append hcount).append hafter)

/-- The line on the first and the last day. -/
def dates (s : Summary) : String :=
  match s.first, s.last with
  | some a, some b => "- Date range: " ++ a.day ++ " to " ++ b.day ++ "\n"
  | _, _ => ""

/-- The line on the tags. -/
def tagged (s : Summary) : String :=
  if s.tags.isEmpty then "" else "- Tagged version: " ++ String.intercalate ", " s.tags ++ "\n"

/-- What stands under the heading. -/
def totals (s : Summary) : String :=
  "\n" ++ rule ++ "\n\n" ++ "Summary:\n" ++
    ("- Events replayed: " ++ s.events.repr ++ "\n") ++
    ("- Total commits: " ++ s.commits.repr ++ "\n") ++
    ("- Merges: " ++ s.merges.repr ++ "\n") ++ s.dates ++ s.tagged ++
    ("\nNext steps:\n" ++
      "1. Verify: git log --oneline --graph --all\n" ++
      "2. Check authors: git shortlog -sn --all\n")

theorem render_eq (colour : Bool) (s : Summary) :
    s.render colour = rule ++ "\n" ++ s.heading colour ++ s.totals := by
  -- the lines on the days and on the tags get their names before the rest is bracketed anew
  have hrender : s.render colour =
      rule ++ "\n" ++ s.heading colour ++ "\n" ++ rule ++ "\n\n" ++ "Summary:\n" ++
        "- Events replayed: " ++ s.events.repr ++ "\n" ++ "- Total commits: " ++ s.commits.repr ++ "\n" ++
        "- Merges: " ++ s.merges.repr ++ "\n" ++ s.dates ++ s.tagged ++ "\nNext steps:\n" ++
        "1. Verify: git log --oneline --graph --all\n" ++
        "2. Check authors: git shortlog -sn --all\n" := rfl
  unfold totals
  rw [hrender]
  simp only [String.append_assoc]

theorem without_dates (s : Summary) : Text.Without '\x1b' s.dates := by
  have hrange : Text.Without '\x1b' "- Date range: " := by decide
  have hto : Text.Without '\x1b' " to " := by decide
  have hend : Text.Without '\x1b' "\n" := by decide
  have hday : ∀ m : Calendar.Moment, Text.Without '\x1b' m.day := fun m => m.notMem_day (by decide)
  unfold dates
  split
  · exact (((hrange.append (hday _)).append hto).append (hday _)).append hend
  · decide

theorem without_tagged (h : ∀ tag ∈ s.tags, Text.Without '\x1b' tag) :
    Text.Without '\x1b' s.tagged := by
  have hversion : Text.Without '\x1b' "- Tagged version: " := by decide
  have hcomma : Text.Without '\x1b' ", " := by decide
  have hend : Text.Without '\x1b' "\n" := by decide
  unfold tagged
  split
  · decide
  · exact (hversion.append (hcomma.intercalate h)).append hend

theorem without_totals (h : ∀ tag ∈ s.tags, Text.Without '\x1b' tag) :
    Text.Without '\x1b' s.totals := by
  have hnewline : Text.Without '\x1b' "\n" := by decide
  have hrule : Text.Without '\x1b' rule := without_rule (by decide)
  have hblank : Text.Without '\x1b' "\n\n" := by decide
  have hhead : Text.Without '\x1b' ("\n" ++ rule ++ "\n\n" ++ "Summary:\n") :=
    ((hnewline.append hrule).append hblank).append (by decide)
  have hcount : ∀ label, Text.Without '\x1b' label → ∀ n : Nat,
      Text.Without '\x1b' (label ++ n.repr ++ "\n") := fun label hlabel n =>
    (hlabel.append (without_repr (by decide) n)).append hnewline
  have hevents := hcount "- Events replayed: " (by decide) s.events
  have hcommits := hcount "- Total commits: " (by decide) s.commits
  have hmerges := hcount "- Merges: " (by decide) s.merges
  exact (((((hhead.append hevents).append hcommits).append hmerges).append
    (without_dates s)).append (without_tagged h)).append (by decide +kernel)

/-- **A summary is decorated** in its heading only. -/
theorem decorates_render (h : ∀ tag ∈ s.tags, Text.Without '\x1b' tag) :
    Text.Decorates (s.render true) (s.render false) := by
  have hrule : Text.Without '\x1b' (rule ++ "\n") :=
    (without_rule (by decide)).append (by decide)
  rw [render_eq, render_eq]
  exact (hrule.decorates.append (decorates_heading s)).append (without_totals h).decorates

end Summary

/-- **Colours are decoration.** If no text of a report, or no tag of a summary, has an escape
character, what is shown with colours, less the style sequences, is what is shown without. -/
theorem colour_is_decoration :
    (∀ report : Report, (∀ s ∈ report.texts, Text.Without '\x1b' s) →
      Text.unstyled (report.render true) = report.render false) ∧
    (∀ s : Summary, (∀ tag ∈ s.tags, Text.Without '\x1b' tag) →
      Text.unstyled (s.render true) = s.render false) :=
  ⟨fun _ h => (Report.decorates_render h).unstyled_eq,
    fun _ h => (Summary.decorates_render h).unstyled_eq⟩

/-- Brackets, digits and the letter `m` in the texts stay, and so does an empty warning. -/
theorem brackets_stay :
    let nine : Calendar.Moment :=
      ⟨⟨2025, 10, 18, by decide⟩, ⟨9, 0, 0, by decide, by decide, by decide⟩⟩
    let report : Report :=
      ⟨.change, nine, .second, "[31m done", .failure "commit" "m\n[0m", ["", "[1;33m"]⟩
    let total : Summary :=
      { events := 2, commits := 2, tags := ["v1", "[0m"], failures := 1, first := nine,
        last := nine }
    report.render true ≠ report.render false ∧
      Text.unstyled (report.render true) =
        "✗ [2025-10-18 09:00:00] second: [31m done\n    ! \n    ! [1;33m\n    commit failed: m" ∧
      total.render true ≠ total.render false ∧
      Text.unstyled (total.render true) = total.render false := by
  intro nine report total
  have hreport : ∀ s ∈ report.texts, Text.Without '\x1b' s := by decide
  have htotal : ∀ tag ∈ total.tags, Text.Without '\x1b' tag := by decide
  refine ⟨by decide +kernel, ?_, by decide +kernel, colour_is_decoration.2 total htotal⟩
  rw [colour_is_decoration.1 report hreport]
  decide +kernel

end Backdate
