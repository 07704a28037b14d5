import Backdate.Proofs.Conversations
import Backdate.Proofs.Lines
import Backdate.Proofs.Recording
import Backdate.Proofs.Spelling
import Backdate.Render

/-!
# Reports line by line

Without colours, the report on a change or a deletion is one status line, one
line for each warning and, if it failed, one line for its failure, and no message,
path or output of git adds to these (`rendered_on_lines`).

* `tellsOnLine`, for git and for the recorder: whatever a tool answers, what is
  told of it is on one line;
* `onLine_apply`: so are the warnings and the failure of a report, on every tool of
  which this holds;
* `newlineParts_render`: the lines of a report of which this holds.
-/

namespace Backdate

open Act

variable {σ : Type}

namespace Text

/-- The parts of a text between its newlines. -/
def newlineParts (s : String) : List String := (s.toList.splitOn '\n').map String.ofList

/-- Texts on one line each, joined by newlines, are taken apart again. -/
theorem newlineParts_joinLines {parts : List String} (h : ∀ p ∈ parts, Without '\n' p)
    (hne : parts ≠ []) : newlineParts (joinLines parts) = parts := by
  have hlines : ∀ l ∈ parts.map String.toList, '\n' ∉ l := by
    intro l hl
    obtain ⟨p, hp, rfl⟩ := List.mem_map.1 hl
    exact h p hp
  have hjoined : (joinLines parts).toList = ['\n'].intercalate (parts.map String.toList) :=
    String.toList_intercalate
  unfold newlineParts
  rw [hjoined, List.splitOn_intercalate '\n' hlines (by simpa using hne), List.map_map]
  simp

/-- The first of the joined texts, and each further one after a newline. -/
theorem joinLines_cons (first : String) (rest : List String) :
    joinLines (first :: rest) = first ++ String.join (rest.map ("\n" ++ ·)) := by
  induction rest generalizing first with
  | nil => simp [joinLines]
  | cons next rest ih =>
    rw [joinLines_cons_cons, ih, List.map_cons, String.join_cons, String.append_assoc,
      String.append_assoc]

end Text

/-! ## What is told of an outcome -/

/-- Whatever is told of an outcome is told on one line. -/
def Outcome.OnLine (o : Outcome) : Prop := ∀ line ∈ o.describe, Text.Without '\n' line

theorem Outcome.onLine_success : Outcome.success.OnLine := by
  intro line h
  cases h

/-- **A failure is told on one line**, whatever its detail, if its step is. -/
theorem Outcome.onLine_failure {step : String} (hstep : Text.Without '\n' step) (detail : String) :
    (Outcome.failure step detail).OnLine :=
  without_describe (by decide) hstep fun _ htold => (Text.gistOf_some htold).2.1

/-- What comes of an operation of a tool is told on one line. -/
def Tool.TellsOnLine (σ : Type) [Tool σ] : Prop :=
  ∀ op : Operation, Yields (op.perform : Act σ Outcome) Outcome.OnLine

/-! ## Git -/

namespace Git

/-- A step of one process, and perhaps a note. -/
theorem onLine_run {step : String} (hstep : Text.Without '\n' step) (c : Call) :
    Yields (run step c) Outcome.OnLine := by
  refine yields_bind (yields_true _) fun reply _ => ?_
  split
  · exact yields_pure Outcome.onLine_success
  · exact yields_bind (yields_true _) fun _ _ => yields_pure (Outcome.onLine_failure hstep _)

theorem onLine_unstageEach (paths : List String) :
    Yields (unstageEach paths) Outcome.OnLine := by
  induction paths with
  | nil => exact yields_pure Outcome.onLine_success
  | cons path paths ih =>
    refine yields_bind (onLine_run (by decide) _) fun outcome houtcome => ?_
    split
    · exact ih
    · exact yields_pure houtcome

/-- A merge that is undone is told of by its own step. -/
theorem onLine_merge (source message : String) (stamp : Stamp) :
    Yields (merge source message stamp) Outcome.OnLine := by
  have hfailure : ∀ detail, (Outcome.failure "merge" detail).OnLine :=
    fun detail => Outcome.onLine_failure (by decide) detail
  rw [merge_eq]
  refine yields_bind (yields_true _) fun reply _ => ?_
  split
  · exact yields_pure Outcome.onLine_success
  split
  · -- how the undoing goes is noted, and is no part of the outcome
    refine yields_bind (yields_true _) fun undone _ => ?_
    cases undone.describe with
    | none => exact yields_pure (hfailure _)
    | some line => exact yields_bind (yields_true _) fun _ _ => yields_pure (hfailure _)
  · exact yields_pure (hfailure _)

theorem onLine_switch (branch : String) : Yields (switch branch) Outcome.OnLine := by
  refine yields_bind (onLine_run (by decide) _) fun outcome houtcome => ?_
  split
  · exact yields_pure houtcome
  refine yields_bind (yields_true _) fun known _ => ?_
  split
  · exact yields_pure houtcome
  · exact yields_bind (yields_true _) fun _ _ => onLine_run (by decide) _

/-- The lines on paths are joined into one detail, of which one line is told. -/
theorem onLine_stage (paths : List String) : Yields (stage paths) Outcome.OnLine := by
  refine yields_bind (yields_true _) fun failures _ => ?_
  split
  · exact yields_pure Outcome.onLine_success
  · exact yields_pure (Outcome.onLine_failure (by decide) _)

theorem onLine_stageAllExcept (excluded : List String) :
    Yields (stageAllExcept excluded) Outcome.OnLine := by
  refine yields_bind (onLine_run (by decide) _) fun outcome houtcome => ?_
  split
  · exact onLine_unstageEach excluded
  · exact yields_pure houtcome

/-- **Git's failures are told on one line**, whatever it prints. -/
theorem tellsOnLine : Tool.TellsOnLine Git := by
  intro op
  cases op with
  | switch branch => exact onLine_switch branch
  | stage paths => exact onLine_stage paths
  | stageAllExcept excluded => exact onLine_stageAllExcept excluded
  | merge source message stamp => exact onLine_merge source message stamp
  | remove path =>
    have hstep : Text.Without '\n' "rm" := by decide
    exact onLine_run hstep (.remove path)
  | commit message stamp allowEmpty =>
    have hstep : Text.Without '\n' "commit" := by decide
    exact onLine_run hstep (.commit message stamp allowEmpty)
  | tag name message stamp =>
    have hstep : Text.Without '\n' "tag" := by decide
    exact onLine_run hstep (.tag name message stamp)

end Git

/-! ## The recorder -/

namespace Recorder

theorem onLine_forced {t : Recorder} {step : String} {otherwise : Outcome}
    (hstep : Text.Without '\n' step) (h : otherwise.OnLine) : (t.forced step otherwise).OnLine := by
  unfold forced
  split
  · exact Outcome.onLine_failure hstep _
  · exact h

theorem onLine_step (t : Recorder) (op : Operation) : (t.step op).1.OnLine := by
  cases op with
  | switch branch =>
    show (t.switch branch).1.OnLine
    unfold switch
    dsimp only
    split
    · exact Outcome.onLine_success
    · exact onLine_forced (by decide) Outcome.onLine_success
  | stage paths =>
    show (t.stage paths).1.OnLine
    unfold stage
    dsimp only
    split
    · exact Outcome.onLine_success
    · exact Outcome.onLine_failure (by decide) _
  | stageAllExcept excluded => exact Outcome.onLine_success
  | remove path =>
    show (t.remove path).1.OnLine
    unfold remove
    dsimp only
    split
    · exact Outcome.onLine_success
    · exact Outcome.onLine_failure (by decide) _
  | commit message stamp allowEmpty =>
    refine onLine_forced (by decide) ?_
    split
    · exact Outcome.onLine_failure (by decide) _
    · exact Outcome.onLine_success
  | merge source message stamp =>
    refine onLine_forced (by decide) ?_
    split
    · exact Outcome.onLine_success
    · exact Outcome.onLine_failure (by decide) _
  | tag name message stamp => exact onLine_forced (by decide) Outcome.onLine_success

/-- **The recorder tells of its failures on one line.** -/
theorem tellsOnLine : Tool.TellsOnLine Recorder := by
  intro op t o t' h
  rw [run_perform] at h
  cases h
  exact onLine_step t op

end Recorder

/-! ## Reports -/

/-- The warnings of a report, and what is told of its outcome, are each on one line. -/
structure Report.OnLines (report : Report) : Prop where
  warnings : ∀ w ∈ report.warnings, Text.Without '\n' w
  outcome : report.outcome.OnLine

section Reported

variable [Tool σ]

theorem onLine_performAll (htool : Tool.TellsOnLine σ) (ops : List Operation) :
    Yields (Operation.performAll ops : Act σ (List String)) fun warnings =>
      ∀ w ∈ warnings, Text.Without '\n' w := by
  induction ops with
  | nil => exact yields_pure fun w hw => absurd hw List.not_mem_nil
  | cons op ops ih =>
    refine yields_bind (htool op) fun outcome houtcome => ?_
    refine yields_bind ih fun rest hrest => yields_pure ?_
    rw [List.forall_mem_append]
    exact ⟨fun w hw => houtcome w (Option.mem_toList.1 hw), hrest⟩

/-- **What a report tells is on lines of its own**, on every tool whose failures are told so. -/
theorem onLine_apply (htool : Tool.TellsOnLine σ) (r : Replayer) (e : Event) :
    Yields (r.apply e : Act σ Report) Report.OnLines := by
  have hbranch : ∀ m, Yields (r.onBranch e m : Act σ Report) Report.OnLines := fun m =>
    yields_bind (onLine_performAll htool _) fun warnings hwarnings =>
      yields_bind (htool _) fun outcome houtcome => yields_pure ⟨hwarnings, houtcome⟩
  rw [Replayer.apply_eq, Replayer.perform_eq]
  refine yields_bind ?_ fun report hreport => Replayer.yields_noted hreport
  refine yields_bind (yields_true _) fun m _ => ?_
  refine yields_bind (htool _) fun switched hswitched => ?_
  -- where the branch is not reached, the outcome is that of the switch
  split
  · exact hbranch m
  · exact yields_pure ⟨fun w hw => absurd hw List.not_mem_nil, hswitched⟩

end Reported

/-! ## The lines of a report -/

/-- A headline is on one line, whatever the message. -/
theorem onLine_headline (message : String) : Text.Without '\n' (headline message) := by
  intro hmem
  unfold headline at hmem
  rw [String.toList_ofList] at hmem
  exact (Text.firstLine_spec message.toList).1 (List.mem_of_mem_take hmem)

namespace Report

variable {report : Report}

/-- The line that says what became of an event. -/
def status (report : Report) : String :=
  report.mark false ++ " [" ++ report.timestamp.text ++ "] " ++ report.body

/-- The lines under it: one for each warning, and one for a failure. -/
def remarks (report : Report) : List String :=
  report.warnings.map ("    ! " ++ ·) ++ report.outcome.describe.toList.map ("    " ++ ·)

/-- **What is shown of a report**: its status line, which begins with a check mark if the event
succeeded and with a cross if not, a line for each warning in order, and a line for a failure. -/
structure InLines (report : Report) : Prop where
  lines : Text.newlineParts (report.render false) = report.status :: report.remarks
  check : "✓".toList <+: report.status.toList ↔ report.succeeded = true
  cross : "✗".toList <+: report.status.toList ↔ report.succeeded = false
  count : (Text.newlineParts (report.render false)).length =
    1 + report.warnings.length + if report.succeeded then 0 else 1

/-- The mark of a change or a deletion says whether it succeeded. -/
theorem mark_plain (hkind : report.kind = .change ∨ report.kind = .deletion) :
    report.mark false = if report.succeeded then "✓" else "✗" := by
  unfold mark
  cases report.succeeded
  · rfl
  · rcases hkind with hkind | hkind <;> rw [hkind] <;> rfl

theorem body_plain (hkind : report.kind = .change ∨ report.kind = .deletion) :
    report.body = report.author.text ++ ": " ++ headline report.label := by
  unfold body
  rcases hkind with hkind | hkind <;> rw [hkind]

/-- Without colours, the lines are joined by newlines. -/
theorem render_plain (report : Report) :
    report.render false = Text.joinLines (report.status :: report.remarks) := by
  have hwarnings : report.warnings.map (fun w => "\n    " ++ "!" ++ " " ++ w) =
      (report.warnings.map ("    ! " ++ ·)).map ("\n" ++ ·) := by
    rw [List.map_map]
    refine List.map_congr_left fun w _ => ?_
    have hlead : "\n    " ++ "!" ++ " " = "\n" ++ "    ! " := by decide
    rw [hlead, String.append_assoc]; rfl
  have hfailure : report.outcome.describe.toList.map ("\n    " ++ ·) =
      (report.outcome.describe.toList.map ("    " ++ ·)).map ("\n" ++ ·) := by
    rw [List.map_map]
    refine List.map_congr_left fun line _ => ?_
    have hlead : "\n    " = "\n" ++ "    " := by decide
    rw [hlead, String.append_assoc]; rfl
  calc report.render false
      = report.status ++ String.join (report.warnings.map fun w => "\n    " ++ "!" ++ " " ++ w) ++
          String.join (report.outcome.describe.toList.map ("\n    " ++ ·)) := rfl
    _ = report.status ++ String.join (report.remarks.map ("\n" ++ ·)) := by
        unfold remarks
        rw [hwarnings, hfailure, List.map_append, String.join_append, String.append_assoc]
    _ = Text.joinLines (report.status :: report.remarks) := (Text.joinLines_cons _ _).symm

/-- Neither the moment nor the author nor the message adds a line to the status line. -/
theorem onLine_status (hkind : report.kind = .change ∨ report.kind = .deletion) :
    Text.Without '\n' report.status := by
  have hmark : Text.Without '\n' (report.mark false) := by
    rw [mark_plain hkind]
    split <;> decide
  have hmoment : Text.Without '\n' report.timestamp.text :=
    Calendar.Moment.notMem_text report.timestamp (by decide) (by decide)
  have hauthor : Text.Without '\n' report.author.text := by
    cases report.author <;> decide
  have hbody : Text.Without '\n' report.body := by
    rw [body_plain hkind]
    exact (hauthor.append (by decide)).append (onLine_headline report.label)
  exact (((hmark.append (by decide)).append hmoment).append (by decide)).append hbody

theorem onLine_remarks (h : report.OnLines) : ∀ line ∈ report.remarks, Text.Without '\n' line := by
  have hwarning : Text.Without '\n' "    ! " := by decide
  have hfailure : Text.Without '\n' "    " := by decide
  unfold remarks
  rw [List.forall_mem_append, List.forall_mem_map, List.forall_mem_map]
  constructor
  · intro w hw
    exact hwarning.append (h.warnings w hw)
  · intro line hline
    exact hfailure.append (h.outcome line (Option.mem_toList.1 hline))

theorem length_remarks (report : Report) :
    report.remarks.length = report.warnings.length + if report.succeeded then 0 else 1 := by
  unfold remarks succeeded
  rw [List.length_append, List.length_map, List.length_map, Outcome.length_describe_toList]

theorem newlineParts_render (hkind : report.kind = .change ∨ report.kind = .deletion)
    (h : report.OnLines) :
    Text.newlineParts (report.render false) = report.status :: report.remarks := by
  have hlines : ∀ line ∈ report.status :: report.remarks, Text.Without '\n' line :=
    List.forall_mem_cons.2 ⟨onLine_status hkind, onLine_remarks h⟩
  rw [render_plain, Text.newlineParts_joinLines hlines (List.cons_ne_nil _ _)]

/-- What the status line begins with. -/
theorem prefix_status (hkind : report.kind = .change ∨ report.kind = .deletion) :
    ("✓".toList <+: report.status.toList ↔ report.succeeded = true) ∧
      ("✗".toList <+: report.status.toList ↔ report.succeeded = false) := by
  unfold status
  rw [mark_plain hkind]
  cases report.succeeded <;> simp [String.toList_append]

/-- **A report on a change or a deletion is shown in its lines**, if what it tells is on lines of its
own. -/
theorem inLines (hkind : report.kind = .change ∨ report.kind = .deletion) (h : report.OnLines) :
    report.InLines where
  lines := newlineParts_render hkind h
  check := (prefix_status hkind).1
  cross := (prefix_status hkind).2
  count := by
    rw [newlineParts_render hkind h, List.length_cons, length_remarks]
    omega

end Report

/-- **How events are shown.** Let a change or a deletion be replayed by git, with any script of
replies, or by the recorder, in any state. If there is a report, then without colours it is shown in
its lines: the status line, one for each warning, and one for the failure if there was one. -/
theorem Replayer.rendered_on_lines (r : Replayer) (e : Event)
    (he : e.kind = .change ∨ e.kind = .deletion) :
    Yields (r.apply e : Act Git Report) Report.InLines ∧
      Yields (r.apply e : Act Recorder Report) Report.InLines := by
  have hkind : ∀ {σ : Type} [Tool σ] {s t : σ} {report : Report},
      (r.apply e).run s = (.ok report, t) → report.kind = .change ∨ report.kind = .deletion := by
    intro σ _ s t report h
    obtain ⟨m, outcome, warnings, -, rfl⟩ := apply_reported h
    exact he
  constructor
  · intro g report g' h
    exact Report.inLines (hkind h) (onLine_apply Git.tellsOnLine r e g report g' h)
  · intro t report t' h
    exact Report.inLines (hkind h) (onLine_apply Recorder.tellsOnLine r e t report t' h)

/-- A deletion with newlines in its message, in its path and in what git prints. -/
theorem Replayer.newlines_add_no_line :
    let nine : Calendar.Moment :=
      ⟨⟨2025, 10, 18, by decide⟩, ⟨9, 0, 0, by decide, by decide, by decide⟩⟩
    let r : Replayer := { anchor := ⟨nine⟩, authors := ⟨⟨"Ada", "a@x"⟩, ⟨"Grace", "g@x"⟩⟩ }
    let e : Event := ⟨"main", .first, ⟨0, 9, 0⟩, .deletion "drop\nall" ["a\n✓ b"]⟩
    let g : Git :=
      { script := [{}, { exit := 1, stderr := "\nno\nsuch path".toUTF8.toList },
          { exit := 1, stdout := "nothing\nto commit".toUTF8.toList }] }
    ∃ report g', (r.apply e).run g = (.ok report, g') ∧ report.InLines ∧
      Text.newlineParts (report.render false) =
        ["✗ [2025-10-18 09:00:00] first: drop", "    ! rm failed: no",
          "    commit failed: nothing"] := by
  intro nine r e g
  let report : Report :=
    ⟨.deletion, nine, .first, "drop\nall", .failure "commit" "nothing\nto commit",
      ["rm failed: no"]⟩
  have hresult : ((r.apply e).run g).1 = .ok report := by decide +kernel
  have hrun : (r.apply e).run g = (.ok report, ((r.apply e).run g).2) := Prod.ext hresult rfl
  have hlines : report.InLines :=
    (rendered_on_lines r e (.inr rfl)).1 g report ((r.apply e).run g).2 hrun
  refine ⟨report, _, hrun, hlines, ?_⟩
  rw [hlines.lines]
  decide +kernel

end Backdate
