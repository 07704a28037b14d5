import Backdate.Proofs.Handover
import Backdate.Proofs.LockStep

/-!
# Dates and identities steer nothing

Two replays of the same events against the same git, from different anchors and
under different identities, go the same way: command by command, report by
report, total by total (`dates_and_identities_never_steer`). Only a NUL in an
identity could tell them apart, as it keeps a process from starting.

* `Process.Like`, `Report.Like`, `Summary.Like`: what the two have in common;
* `inStep`: a process starts in both or in neither (`start_alike`), so all that
  an event asks of git is in lock step.
-/

namespace Backdate

open Calendar Act

/-- The same command with the same variables, and the same reply. The variables may have other
values. -/
structure Process.Like (p q : Process) : Prop where
  args : p.call.args = q.call.args
  names : p.call.environment.map (·.1) = q.call.environment.map (·.1)
  reply : p.reply = q.reply

/-- The same report, but for its moment. -/
structure Report.Like (a b : Report) : Prop where
  kind : a.kind = b.kind
  author : a.author = b.author
  label : a.label = b.label
  outcome : a.outcome = b.outcome
  warnings : a.warnings = b.warnings

/-- The same totals, but for the first and the last moment. -/
structure Summary.Like (a b : Summary) : Prop where
  events : a.events = b.events
  commits : a.commits = b.commits
  merges : a.merges = b.merges
  tags : a.tags = b.tags
  failures : a.failures = b.failures

theorem Summary.Like.record {a b : Summary} {report report' : Report} (h : a.Like b)
    (hreport : report.Like report') : (a.record report).Like (b.record report') := by
  have hcounts : report.countsAsCommit = report'.countsAsCommit := by
    unfold Report.countsAsCommit; rw [hreport.kind]
  have hsucceeded : report.succeeded = report'.succeeded := by
    unfold Report.succeeded; rw [hreport.outcome]
  constructor
  · simp only [Summary.record, h.events]
  · simp only [Summary.record, h.commits, hcounts]
  · simp only [Summary.record, h.merges, hsucceeded, hreport.kind]
  · simp only [Summary.record, h.tags, hsucceeded, hreport.kind, hreport.label]
  · simp only [Summary.record, h.failures, hsucceeded]

/-- No NUL in the names and the addresses of the authors. -/
def Authors.NulFree (a : Authors) : Prop :=
  ∀ author, Text.hasNul (a.identity author).name = false ∧
    Text.hasNul (a.identity author).email = false

/-- **Two replays that go the same way.** -/
structure Replayed.Like (a b : Replayed Git) : Prop where
  calls : List.Forall₂ Process.Like a.tool.ran b.tool.ran
  reports : List.Forall₂ (fun done done' => done.1 = done'.1 ∧ done.2.Like done'.2)
    a.reports b.reports
  result : Agree Summary.Like a.result b.result

namespace Git

/-- The same replies to come, the same directory, and the same commands so far. -/
structure Like (g h : Git) : Prop where
  script : g.script = h.script
  blocked : g.blocked = h.blocked
  ran : List.Forall₂ Process.Like g.ran h.ran

theorem Like.refl (g : Git) : g.Like g :=
  ⟨rfl, rfl, List.forall₂_same.2 fun _ _ => ⟨rfl, rfl, rfl⟩⟩

/-- The same variables, without NUL in either. -/
structure SameVariables (env env' : List (String × String)) : Prop where
  names : env.map (·.1) = env'.map (·.1)
  left : (env.any fun v => Text.hasNul v.2) = false
  right : (env'.any fun v => Text.hasNul v.2) = false

/-- What does not start, does not start for one reason. -/
theorem NotStarted.unique {g h : Git} {c c' : Call} {why why' : Fault} (hwhy : NotStarted g c why)
    (hwhy' : NotStarted h c' why') (hargs : c.args = c'.args) (hnul : c.hasNul = c'.hasNul)
    (hb : g.blocked = h.blocked) : why = why' := by
  unfold NotStarted at hwhy hwhy'
  rw [← hargs, ← hnul, ← hb] at hwhy'
  rcases hwhy with ⟨hyes, rfl⟩ | ⟨hno, e, he, rfl⟩
  · rcases hwhy' with ⟨-, rfl⟩ | ⟨hno, -⟩
    · rfl
    · rw [hyes] at hno; cases hno
  · rcases hwhy' with ⟨hyes, -⟩ | ⟨-, e', he', rfl⟩
    · rw [hno] at hyes; cases hyes
    · rw [he] at he'; cases he'; rfl

/-- **A process starts in both runs or in neither**, and gets the same reply. -/
theorem start_alike (args : List String) {env env' : List (String × String)}
    (henv : SameVariables env env') : Alike Like Eq (start ⟨args, env⟩) (start ⟨args, env'⟩) := by
  have hnul : Call.hasNul ⟨args, env⟩ = Call.hasNul ⟨args, env'⟩ := by
    simp only [Call.hasNul, henv.left, henv.right]
  intro g h hlike
  -- whether a process starts is a matter of NUL and of the directory, and these are the same
  rcases start_cases ⟨args, env⟩ g with ⟨g', hg, hran, hno, hopen⟩ | ⟨why, g', hg, hran, hwhy⟩
  · rcases start_cases ⟨args, env'⟩ h with ⟨h', hh, hran', -, -⟩ | ⟨why', h', -, -, hwhy'⟩
    · rw [hg, hh]
      obtain ⟨-, hscript⟩ := hran.served
      obtain ⟨-, hscript'⟩ := hran'.served
      refine ⟨.ok (by rw [hlike.script]), ?_, ?_, ?_⟩
      · exact hscript.trans ((congrArg List.tail hlike.script).trans hscript'.symm)
      · exact hran.blocked.trans (hlike.blocked.trans hran'.blocked.symm)
      · rw [hran.ran, hran'.ran]
        exact List.rel_append hlike.ran (.cons ⟨rfl, henv.names, by rw [hlike.script]⟩ .nil)
    · exact absurd hwhy' (not_notStarted (hnul ▸ hno) (hlike.blocked ▸ hopen))
  · rcases start_cases ⟨args, env'⟩ h with ⟨h', -, -, hno, hopen⟩ | ⟨why', h', hh, hran', hwhy'⟩
    · exact absurd hwhy (not_notStarted (hnul ▸ hno) (hlike.blocked ▸ hopen))
    · have heq : why = why' := hwhy.unique hwhy' rfl hnul hlike.blocked
      rw [hg, hh, heq]
      have hscript : g'.script = g.script := hran.served
      have hscript' : h'.script = h.script := hran'.served
      refine ⟨.fault why', ?_, ?_, ?_⟩
      · exact hscript.trans (hlike.script.trans hscript'.symm)
      · exact hran.blocked.trans (hlike.blocked.trans hran'.blocked.symm)
      · rw [hran.ran, hran'.ran, List.append_nil, List.append_nil]
        exact hlike.ran

theorem inStep : InStep Like SameVariables where
  plain := ⟨rfl, rfl, rfl⟩
  start args := start_alike args
  log _ := alike_modify fun _ _ hlike => ⟨hlike.script, hlike.blocked, hlike.ran⟩

/-- The stamps of any two moments and NUL-free identities have the same variables. -/
theorem sameVariables_stamp {r r' : Replayer} (hnul : r.authors.NulFree) (hnul' : r'.authors.NulFree)
    (author : Author) (m m' : Moment) :
    SameVariables (r.stamp author m).environment (r'.stamp author m').environment := by
  have hclean : ∀ {r : Replayer}, r.authors.NulFree → ∀ m : Moment,
      ((r.stamp author m).environment.any fun v => Text.hasNul v.2) = false := by
    intro r hnul m
    rw [Stamp.any_environment]
    simp [Stamp.texts, Replayer.stamp, m.hasNul_text, hnul author]
  exact ⟨rfl, hclean hnul m, hclean hnul' m'⟩

/-- The note of a failure tells its moment, and nothing depends on notes. -/
theorem alike_noted {report report' : Report} (h : report.Like report') :
    Alike Like Report.Like (Replayer.noted report) (Replayer.noted report') := by
  unfold Replayer.noted
  rw [h.outcome]
  cases report'.outcome.describe with
  | none => exact alike_pure h
  | some line =>
    have hnote : ∀ g g' : Git, g.Like g' → ∀ n n', (Tool.note n g).Like (Tool.note n' g') :=
      fun g g' hlike n n' => ⟨hlike.script, hlike.blocked, hlike.ran⟩
    exact (alike_modify fun g g' hlike => hnote g g' hlike _ _).then fun _ => alike_pure h

/-- **Dates and identities never steer a replay.** Take the same events, excluded paths and git, and
any two anchors and pairs of identities. If no identity has a NUL in it and all events have their
moments, both replays run the same commands in the same order, report the same events with the same
outcomes and warnings, and end in the same fault or with the same totals: what differs are the
values of the variables and the moments. -/
theorem dates_and_identities_never_steer {anchor anchor' : Anchor} {authors authors' : Authors}
    (hnul : authors.NulFree) (hnul' : authors'.NulFree) {es : List Event}
    (htimes : ∀ e ∈ es, ∃ m, anchor.resolve e.time = .ok m)
    (htimes' : ∀ e ∈ es, ∃ m, anchor'.resolve e.time = .ok m) (excluded : List String) (g : Git) :
    ((⟨anchor, authors, excluded⟩ : Replayer).replay es g).Like
      ((⟨anchor', authors', excluded⟩ : Replayer).replay es g) := by
  let r : Replayer := ⟨anchor, authors, excluded⟩
  let r' : Replayer := ⟨anchor', authors', excluded⟩
  have hclean : r.authors.NulFree := hnul
  have hclean' : r'.authors.NulFree := hnul'
  have happly : ∀ e ∈ es, Alike Like Report.Like (r.apply e) (r'.apply e) := by
    intro e he
    obtain ⟨m, hm⟩ := htimes e he
    obtain ⟨m', hm'⟩ := htimes' e he
    have hstamp : SameVariables (r.stamp e.author m).environment
        (r'.stamp e.author m').environment := sameVariables_stamp hclean hclean' e.author m m'
    have hnoted : ∀ outcome warnings, Alike Like Report.Like
        (Replayer.noted (e.report m outcome warnings))
        (Replayer.noted (e.report m' outcome warnings)) := by
      intro outcome warnings
      exact alike_noted ⟨rfl, rfl, rfl, rfl, rfl⟩
    have hprepare : r'.preparations e = r.preparations e := rfl
    exact Replayer.alike_apply hm hm' hprepare (inStep.preparing r e) (inStep.writing e hstamp) hnoted
  have hrecord : ∀ a b report report', Summary.Like a b → report.Like report' →
      (a.record report).Like (b.record report') := fun a b report report' => Summary.Like.record
  have hstart : ({} : Summary).Like {} := ⟨rfl, rfl, rfl, rfl, rfl⟩
  obtain ⟨hreports, hresult, htool⟩ :=
    Replayer.alike_replayOnto hrecord happly hstart (Like.refl g)
  exact ⟨htool.ran, hreports, hresult⟩

/-- A branch that is created, a merge in conflict and a tag that does not start, under other names
and at another time: the processes differ, and their course does not. -/
theorem conflict_and_fault_under_other_names :
    let ada : Replayer :=
      ⟨⟨⟨2025, 10, 18, by decide⟩, ⟨9, 0, 0, by decide, by decide, by decide⟩⟩,
        ⟨⟨"Ada", "a@x"⟩, ⟨"Grace", "g@x"⟩⟩, ["history.toml"]⟩
    let eve : Replayer :=
      ⟨⟨⟨1999, 12, 31, by decide⟩, ⟨23, 59, 58, by decide, by decide, by decide⟩⟩,
        ⟨⟨"Eve", ""⟩, ⟨"", "?"⟩⟩, ["history.toml"]⟩
    let es : List Event :=
      [⟨"side", .first, ⟨0, 9, 0⟩, .change "start" .everything⟩,
       ⟨"main", .second, ⟨0, 9, 0⟩, .merge "side"⟩,
       ⟨"main", .first, ⟨0, 9, 0⟩, .tag "v\x001" "done"⟩]
    let failed : Reply := { exit := 1 }
    let conflict : Reply := { exit := 1, stdout := "CONFLICT".toUTF8.toList }
    let g : Git := { script := [failed, failed, {}, {}, failed, {}, {}, conflict] }
    (ada.replay es g).Like (eve.replay es g) ∧
      (ada.replay es g).tool.ran ≠ (eve.replay es g).tool.ran ∧
      (ada.replay es g).tool.ran.length = 10 ∧
      (ada.replay es g).result = .error (.notStarted "tag" .nul) := by
  intro ada eve es failed conflict g
  have hnine : ∀ e ∈ es, e.time = ⟨0, 9, 0⟩ := by decide
  have hada : ∀ e ∈ es, ∃ m, ada.anchor.resolve e.time = .ok m := by
    intro e he
    exact ⟨ada.anchor.start, by rw [hnine e he]; rfl⟩
  have heve : ∀ e ∈ es, ∃ m, eve.anchor.resolve e.time = .ok m := by
    intro e he
    exact ⟨eve.anchor.start, by rw [hnine e he]; rfl⟩
  have hnul : ada.authors.NulFree := by intro author; cases author <;> decide
  have hnul' : eve.authors.NulFree := by intro author; cases author <;> decide
  have hlike : (ada.replay es g).Like (eve.replay es g) :=
    dates_and_identities_never_steer hnul hnul' hada heve ["history.toml"] g
  exact ⟨hlike, by decide +kernel, by decide +kernel, by decide +kernel⟩

end Git

end Backdate
