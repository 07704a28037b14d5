import Backdate.Proofs.Exclusion
import Backdate.Proofs.Lines
import Backdate.Proofs.Staging

/-!
# Paths that were not staged

A change that lists its paths goes on after paths that could not be staged, and
warns of them. Each has its own account, but they make one failure, and of a
failure one line is told. So the event warns of the **first** such path only, and
of another one only if it happens to occur in the line on the first
(`unstaged_told`).

* `Rejection`: a path with its account, on either tool;
* `told_of_rejections`: what is told of some rejections, for both tools at once;
* `does_stage_rejections`, `stage_rejections`: what each tool makes of a list of paths.
-/

namespace Backdate

theorem Text.occurs_iff (p cs : List Char) : Text.occurs p cs = true ↔ p <:+: cs := by
  induction cs with
  | nil => simp [occurs]
  | cons c cs ih =>
    rw [occurs, Bool.or_eq_true, ih, List.isPrefixOf_iff_prefix, List.infix_cons_iff]

/-! ## Rejections -/

/-- A path that was not staged, with what is said of it: some words on one line that do not begin
with a blank, the path, and more words that do not begin with a blank. -/
structure Rejection where
  path : String
  before : String
  after : String
  opens : '\n' ∉ before.toList ∧ Text.opensBlank before.toList = false
  closes : ∃ c rest, after.toList = c :: rest ∧ Text.isBlank c = false

namespace Rejection

variable {f : Rejection}

def account (f : Rejection) : String := f.before ++ f.path ++ f.after

/-- The warning on a rejection. -/
def line (f : Rejection) : String := "add failed: " ++ (Outcome.gist f.account).getD ""

theorem exists_gistOf (f : Rejection) :
    ∃ l, Text.gistOf f.account.toList = some l ∧ f.line = "add failed: " ++ String.ofList l := by
  obtain ⟨c, rest, hafter, hc⟩ := f.closes
  have hshown : ¬ f.account.toList.all Text.isBlank = true := by
    unfold account
    rw [String.toList_append, hafter, List.all_append, List.all_cons, hc]; simp
  cases hgist : Text.gistOf f.account.toList with
  | none => exact absurd (Text.gistOf_eq_none_iff.1 hgist) hshown
  | some l =>
    refine ⟨l, rfl, ?_⟩
    unfold line
    rw [Text.gist_eq, hgist]; rfl

theorem allBlank_account (f : Rejection) : Text.allBlank f.account = false := by
  obtain ⟨l, hgist, -⟩ := f.exists_gistOf
  rw [← Bool.not_eq_true]
  intro hblank
  rw [Text.gistOf_eq_none_iff.2 hblank] at hgist
  cases hgist

/-- A warning is on one line. -/
theorem newline_not_mem_line (f : Rejection) : '\n' ∉ f.line.toList := by
  obtain ⟨l, hgist, hline⟩ := f.exists_gistOf
  have hword : '\n' ∉ "add failed: ".toList := by decide
  rw [hline, String.toList_append, String.toList_ofList (l := l)]
  intro hmem
  rcases List.mem_append.1 hmem with hmem | hmem
  · exact hword hmem
  · exact (Text.gistOf_some hgist).2.1 hmem

/-- **A path on one line that does not begin with a blank is named** by the warning on it. -/
theorem occurs_line (honLine : '\n' ∉ f.path.toList)
    (hhead : Text.opensBlank f.path.toList = false) :
    Text.occurs f.path.toList f.line.toList = true := by
  obtain ⟨hopen, hfirst⟩ := f.opens
  obtain ⟨c, rest, hafter, hc⟩ := f.closes
  have haccount : f.account.toList = (f.before.toList ++ f.path.toList) ++ c :: rest := by
    unfold account
    rw [String.toList_append, String.toList_append, hafter]
  have hone : '\n' ∉ f.before.toList ++ f.path.toList := by
    intro hmem
    exact (List.mem_append.1 hmem).elim hopen honLine
  have hstart : Text.opensBlank (f.before.toList ++ f.path.toList) = false := by
    cases hbefore : f.before.toList with
    | nil => exact hhead
    | cons x xs => rw [hbefore] at hfirst; exact hfirst
  obtain ⟨l, hgist, hprefix⟩ := Text.prefix_gistOf hone hstart hc rest
  obtain ⟨l', hgist', hline⟩ := f.exists_gistOf
  rw [haccount, hgist] at hgist'
  cases hgist'
  rw [Text.occurs_iff, hline, String.toList_append, String.toList_ofList (l := l)]
  have hpath : f.path.toList <:+: f.before.toList ++ f.path.toList ++ [c] :=
    ⟨f.before.toList, [c], rfl⟩
  exact (hpath.trans hprefix.isInfix).trans (List.suffix_append _ _).isInfix

/-- What staging comes to, given the rejections in order. -/
def outcome (rejected : List Rejection) : Outcome :=
  if rejected.isEmpty then .success else .failure "add" (Text.joinLines (rejected.map account))

/-- **Only the first rejection is told.** -/
theorem describe_outcome (rejected : List Rejection) :
    (outcome rejected).describe.toList = (rejected.take 1).map line := by
  cases rejected with
  | nil => rfl
  | cons f more =>
    obtain ⟨l, hgist, hline⟩ := f.exists_gistOf
    have hfirst : Text.gistOf (Text.joinLines ((f :: more).map account)).toList = some l := by
      cases more with
      | nil =>
        have hone : Text.joinLines [f.account] = f.account := String.intercalate_singleton
        rw [List.map_cons, List.map_nil, hone, hgist]
      | cons next more =>
        rw [List.map_cons, List.map_cons, Text.joinLines_cons_cons, String.toList_append,
          String.toList_append, List.append_assoc]
        rw [← hgist]
        exact Text.gistOf_append f.allBlank_account _
    show (Outcome.describe (.failure "add" _)).toList = [f.line]
    rw [Outcome.describe_eq, hfirst, hline]
    rfl

end Rejection

/-- Whether a path is named in one of some warnings. -/
def Named (warnings : List String) (path : String) : Prop :=
  ∃ w ∈ warnings, Text.occurs path.toList w.toList = true

/-- **What is told of rejections**, given in order: a warning on the first of them and no other, so all
their paths are named if and only if they all occur in that one line. The first path is named if it
is on one line and does not begin with a blank; a path with a newline in it never is. -/
structure Told (rejected : List Rejection) (warnings : List String) : Prop where
  said : warnings = (rejected.take 1).map Rejection.line
  all_iff : (∀ f ∈ rejected, Named warnings f.path) ↔
    ∀ first ∈ rejected.head?, ∀ f ∈ rejected, Text.occurs f.path.toList first.line.toList = true
  first : ∀ first ∈ rejected.head?, '\n' ∉ first.path.toList →
    Text.opensBlank first.path.toList = false → Named warnings first.path
  broken : ∀ path, '\n' ∈ path.toList → ¬ Named warnings path

/-- **What is told where staging came to rejections**, on any tool. -/
theorem told_of_rejections {rejected : List Rejection} {warnings : List String}
    (h : warnings = (Rejection.outcome rejected).describe.toList) : Told rejected warnings := by
  rw [Rejection.describe_outcome] at h
  subst h
  cases rejected with
  | nil =>
    refine ⟨rfl, iff_of_true (by simp) (by simp), by simp, ?_⟩
    rintro path - ⟨w, hw, -⟩
    exact absurd hw List.not_mem_nil
  | cons f more =>
    have hnamed : ∀ path, Named (((f :: more).take 1).map Rejection.line) path ↔
        Text.occurs path.toList f.line.toList = true := by
      intro path
      simp [Named]
    refine ⟨rfl, ?_, ?_, ?_⟩
    · simp only [hnamed, List.head?_cons, Option.mem_some_iff, forall_eq']
    · intro first hfirst honLine hhead
      obtain rfl := Option.some.inj hfirst
      exact (hnamed _).2 (Rejection.occurs_line honLine hhead)
    · intro path hbroken hpath
      have hin := (Text.occurs_iff _ _).1 ((hnamed path).1 hpath)
      exact f.newline_not_mem_line (hin.subset hbroken)

/-! ## Git -/

/-- What git says of a path that it does not stage. -/
def Rejection.byGit (path : String) (reply : Reply) : Rejection where
  path := path
  before := ""
  after := ": " ++ Text.trimmed reply.detail
  opens := by decide
  closes := ⟨':', ' ' :: (Text.trimmed reply.detail).toList, by simp, by decide⟩

/-- The rejection that a process is, if it is one. -/
def Process.rejection (p : Process) : Option Rejection :=
  if p.call.command = "add" ∧ p.reply.succeeded = false then
    p.call.args.getLast?.map (Rejection.byGit · p.reply)
  else none

theorem Process.rejection_add (path : String) (reply : Reply) :
    Process.rejection ⟨.add path, reply⟩ =
      if reply.succeeded then none else some (.byGit path reply) := by
  unfold rejection
  cases h : reply.succeeded <;> simp [Call.command, Call.add]

theorem Process.rejection_eq_none {p : Process} (h : p.call.command ≠ "add") : p.rejection = none :=
  if_neg fun hp => h hp.1

namespace Git

variable {r : Replayer} {e : Event} {g g' : Git} {ps : List Process}

/-- Each rejection of git has its own line. -/
theorem addLine_eq (path : String) (reply : Reply) :
    addLine path (reply.outcome "add") =
      ((Process.rejection ⟨.add path, reply⟩).toList).map Rejection.account := by
  rw [Process.rejection_add]
  unfold Reply.outcome
  cases reply.succeeded with
  | true => rfl
  | false => simp [addLine, Rejection.account, Rejection.byGit, String.append_assoc]

theorem does_stageEach_rejections {paths failures : List String}
    (h : Does (stageEach paths) g ps (.ok failures) g') :
    failures = (ps.filterMap Process.rejection).map Rejection.account := by
  induction paths generalizing g g' ps failures with
  | nil =>
    obtain ⟨rfl, heq⟩ := does_pure h
    cases heq; rfl
  | cons path paths ih =>
    rw [stageEach_cons] at h
    rcases does_bind h (logs_run _ _) (fun _ => logs_bind (logs_stageEach paths) fun _ =>
        logs_pure _) with ⟨why, -, heq⟩ | ⟨outcome, qs, g₁, rs, hr, hrs, rfl⟩
    · cases heq
    obtain ⟨reply, rfl, rfl⟩ := does_run_ok hr
    rcases does_bind hrs (logs_stageEach paths) (fun _ => logs_pure _) with
      ⟨why, -, heq⟩ | ⟨rest, ts, g₂, us, hts, hus, rfl⟩
    · cases heq
    obtain ⟨rfl, heq⟩ := does_pure hus
    cases heq
    rw [List.append_nil, ih hts, addLine_eq, List.singleton_append, List.filterMap_cons]
    cases Process.rejection ⟨.add path, reply⟩ <;> rfl

/-- **What git makes of a list of paths.** -/
theorem does_stage_rejections {paths : List String} {o : Outcome}
    (h : Does (stage paths) g ps (.ok o) g') :
    o = Rejection.outcome (ps.filterMap Process.rejection) := by
  rcases does_bind h (logs_stageEach paths) (fun _ => logs_ite (logs_pure _) (logs_pure _)) with
    ⟨why, -, heq⟩ | ⟨failures, qs, g₁, rs, hq, hrs, rfl⟩
  · cases heq
  have hfailures := does_stageEach_rejections hq
  have hempty : failures.isEmpty = (qs.filterMap Process.rejection).isEmpty := by
    rw [hfailures, List.isEmpty_map]
  unfold Rejection.outcome
  rw [hempty] at hrs
  split at hrs
  · next hnone =>
    obtain ⟨rfl, heq⟩ := does_pure hrs
    rw [List.append_nil, if_pos hnone]
    exact Except.ok.inj heq
  · next hsome =>
    obtain ⟨rfl, heq⟩ := does_pure hrs
    rw [List.append_nil, if_neg hsome, ← hfailures]
    exact Except.ok.inj heq

/-- Where nothing but single paths is staged, the rejections are of the paths whose staging failed. -/
theorem mem_rejections {path : String}
    (hps : ∀ p ∈ ps, p.call.command = "add" → ∃ other, p.call = .add other) :
    (∃ f ∈ ps.filterMap Process.rejection, f.path = path) ↔
      ∃ reply, (⟨.add path, reply⟩ : Process) ∈ ps ∧ reply.succeeded = false := by
  constructor
  · rintro ⟨f, hf, rfl⟩
    obtain ⟨⟨call, reply⟩, hp, hrejection⟩ := List.mem_filterMap.1 hf
    have hadd : call.command = "add" := by
      by_cases hadd : call.command = "add"
      · exact hadd
      · rw [Process.rejection_eq_none hadd] at hrejection; cases hrejection
    obtain ⟨other, rfl⟩ : ∃ other, call = .add other := hps _ hp hadd
    rw [Process.rejection_add] at hrejection
    split at hrejection
    · cases hrejection
    · next hno =>
      obtain rfl := Option.some.inj hrejection
      exact ⟨reply, hp, Bool.eq_false_iff.2 hno⟩
  · rintro ⟨reply, hp, hno⟩
    refine ⟨.byGit path reply, List.mem_filterMap.2 ⟨_, hp, ?_⟩, rfl⟩
    rw [Process.rejection_add, hno]; rfl

/-- **A change that lists its paths and reached its branch**: it stages each of them in order, whatever
becomes of those before it, and commits. -/
theorem listed_committed {message : String} {paths : List String} {report : Report}
    (he : e.action = .change message (.listed paths))
    (hs : ((switch e.branch).run g).1 = .ok .success) (hres : (r.episode e g).result = .ok report) :
    ∃ sw qs committed, processes (r.episode e g) = sw ++ (qs ++ [committed]) ∧
      (∀ p ∈ sw, p.call.command ≠ "add") ∧ qs.map (·.call) = paths.map .add ∧
      committed.call.command = "commit" ∧
      report.warnings = (Rejection.outcome (qs.filterMap Process.rejection)).describe.toList := by
  have hcourse := course_episode r e g
  rw [hres] at hcourse
  obtain ⟨p, hp, hcall⟩ := hcourse.written_of_switch hs
  have hwrites : p.call.writesHistory = true := by rw [hcall]; exact writesHistory_writingCall e _
  obtain ⟨m, sw, qs, ws, warnings, o, g₁, g₂, g₃, hps, hreport, hsw, hq, hw⟩ :=
    hcourse.of_writes hp hwrites
  have hprep : r.preparations e = [.stage paths] := by unfold Replayer.preparations; rw [he]
  have hwriting : e.writing (r.stamp e.author m) = .commit message (r.stamp e.author m) true := by
    unfold Event.writing; rw [he]
  rw [hprep] at hq
  rw [hwriting] at hw
  obtain ⟨staged, g₄, hstaged, rfl⟩ := does_performAll_one hq
  obtain ⟨reply, rfl, -⟩ := does_run_ok hw
  cases hreport
  refine ⟨sw, qs, _, hps, fun p hp heq => ?_, (does_stage_ok hstaged).1, rfl, ?_⟩
  · exact ((does_switch hsw).calls p hp).2 (by rw [heq]; simp)
  · rw [← does_stage_rejections hstaged]; rfl

end Git

/-! ## The recorder -/

/-- What a recorder says of a path that is not there. -/
def Rejection.byRecorder (path : String) : Rejection where
  path := path
  before := "fatal: pathspec '"
  after := "' did not match any files"
  opens := by decide
  closes := ⟨'\'', " did not match any files".toList, by decide, by decide⟩

namespace Recorder

variable {t : Recorder}

/-- The rejections of a recorder: the listed paths that are not there. -/
def rejections (t : Recorder) (paths : List String) : List Rejection :=
  (paths.filter fun p => !t.hasPath p).map .byRecorder

theorem mem_rejections {paths : List String} {path : String} :
    (∃ f ∈ t.rejections paths, f.path = path) ↔
      path ∈ paths ∧ t.permissive = false ∧ path ∉ t.worktree := by
  have hgone : t.hasPath path = false ↔ t.permissive = false ∧ path ∉ t.worktree := by
    rw [← Bool.not_eq_true, hasPath_iff]; simp
  rw [← hgone]
  constructor
  · rintro ⟨f, hf, rfl⟩
    obtain ⟨path, hpath, rfl⟩ := List.mem_map.1 hf
    obtain ⟨hlisted, hno⟩ := List.mem_filter.1 hpath
    have hgone : t.hasPath path = false := by simpa using hno
    exact ⟨hlisted, hgone⟩
  · rintro ⟨hlisted, hno⟩
    exact ⟨.byRecorder path, List.mem_map_of_mem (List.mem_filter.2 ⟨hlisted, by rw [hno]; rfl⟩), rfl⟩

/-- **What a recorder makes of a list of paths.** -/
theorem stage_rejections (t : Recorder) (paths : List String) :
    (t.stage paths).1 = Rejection.outcome (t.rejections paths) := by
  have haccounts : (t.rejections paths).map Rejection.account =
      (paths.filter fun p => !t.hasPath p).map unmatched := by
    unfold rejections
    rw [List.map_map]; rfl
  unfold Rejection.outcome
  rw [haccounts]
  unfold rejections stage
  rw [List.isEmpty_map]
  simp only
  split <;> rfl

/-- On its way to the branch a recorder loses no path. -/
theorem rejections_switch (t : Recorder) (branch : String) (paths : List String) :
    (t.switch branch).2.rejections paths = t.rejections paths := by
  obtain ⟨-, hworktree, hpermissive⟩ := t.switch_keeps branch
  unfold rejections hasPath
  rw [hworktree, hpermissive]

/-- A change that lists its paths and reached its branch warns of what staging them came to. -/
theorem warnings_listed {r : Replayer} {e : Event} {message : String} {paths : List String}
    {report : Report} (he : e.action = .change message (.listed paths))
    (hs : (t.switch e.branch).1 = .success) (hres : (r.episode e t).result = .ok report) :
    report.warnings = (((t.switch e.branch).2.stage paths).1).describe.toList := by
  have hprep : r.preparations e = [.stage paths] := by unfold Replayer.preparations; rw [he]
  have hok : (t.switch e.branch).1.isSuccess = true := by rw [hs]; rfl
  cases hm : r.anchor.resolve e.time with
  | error why =>
    rw [Replayer.episode_eq (Replayer.apply_unresolved hm t)] at hres
    cases hres
  | ok m =>
    obtain ⟨notes, hrun⟩ := run_apply hm t
    rw [Replayer.episode_eq hrun] at hres
    have hreport : (event r e m t).1 = report := Except.ok.inj hres
    rw [← hreport]
    unfold event
    simp only [if_pos hok, hprep]
    exact List.append_nil _

end Recorder

/-! ## Both tools -/

/-- **Of the paths that were not staged, the first is told.** Let a change list its paths and reach
its branch, and come to a report. On git the rejected paths are those whose staging failed, on a
recorder those that are not there; of them, in order, is told what `Told` says. -/
theorem unstaged_told (r : Replayer) (e : Event) {message : String} {paths : List String}
    (he : e.action = .change message (.listed paths)) :
    (∀ (g : Git) (report : Report), ((Git.switch e.branch).run g).1 = .ok .success →
      (r.episode e g).result = .ok report →
      let rejected := (Git.processes (r.episode e g)).filterMap Process.rejection
      Told rejected report.warnings ∧ ∀ path, (∃ f ∈ rejected, f.path = path) ↔
        ∃ reply, (⟨.add path, reply⟩ : Process) ∈ Git.processes (r.episode e g) ∧
          reply.succeeded = false) ∧
    ∀ (t : Recorder) (report : Report), (t.switch e.branch).1 = .success →
      (r.episode e t).result = .ok report →
      Told (t.rejections paths) report.warnings ∧
        ∀ path, (∃ f ∈ t.rejections paths, f.path = path) ↔
          path ∈ paths ∧ t.permissive = false ∧ path ∉ t.worktree := by
  refine ⟨fun g report hs hres => ?_, fun t report hs hres => ?_⟩
  · obtain ⟨sw, qs, committed, hps, hsw, hcalls, hcommit, hwarnings⟩ :=
      Git.listed_committed he hs hres
    -- neither the way to the branch nor the commit stages anything
    have hwritten : committed.call.command ≠ "add" := by rw [hcommit]; decide
    have hrejected : (sw ++ (qs ++ [committed])).filterMap Process.rejection =
        qs.filterMap Process.rejection := by
      have hreached : sw.filterMap Process.rejection = [] :=
        List.filterMap_eq_nil_iff.2 fun p hp => Process.rejection_eq_none (hsw p hp)
      rw [List.filterMap_append, List.filterMap_append, hreached,
        List.filterMap_cons_none (Process.rejection_eq_none hwritten)]
      simp
    simp only [hps]
    refine ⟨told_of_rejections (by rw [hrejected, hwarnings]), fun path => Git.mem_rejections ?_⟩
    intro p hp hadd
    rcases List.mem_append.1 hp with hp | hp
    · exact absurd hadd (hsw p hp)
    rcases List.mem_append.1 hp with hp | hp
    · obtain ⟨other, -, hcall⟩ := List.mem_map.1 (hcalls ▸ List.mem_map_of_mem hp)
      exact ⟨other, hcall.symm⟩
    · exact absurd (List.mem_singleton.1 hp ▸ hadd) hwritten
  · refine ⟨told_of_rejections ?_, fun path => Recorder.mem_rejections⟩
    rw [Recorder.warnings_listed he hs hres, Recorder.stage_rejections, Recorder.rejections_switch]

/-- Two of three listed paths are not staged, on either tool, and only the first is named. -/
theorem second_missing_path_not_named :
    let r : Replayer :=
      ⟨⟨⟨2025, 10, 18, by decide⟩, ⟨9, 0, 0, by decide, by decide, by decide⟩⟩,
        ⟨⟨"Ada", "a@x"⟩, ⟨"Grace", "g@x"⟩⟩, []⟩
    let e : Event := ⟨"main", .first, ⟨0, 9, 0⟩, .change "start" (.listed ["a.rs", "b.rs", "c.rs"])⟩
    let t : Recorder := ({} : Recorder).withFiles ["c.rs"]
    let no : Reply := { exit := 128, stderr := "fatal: no match".toUTF8.toList }
    let g : Git := { script := [{}, no, no, {}, {}] }
    (∃ report, (r.episode e t).result = .ok report ∧
      report.warnings = ["add failed: fatal: pathspec 'a.rs' did not match any files"] ∧
      Named report.warnings "a.rs" ∧ "b.rs" ∉ t.worktree ∧ ¬ Named report.warnings "b.rs") ∧
    ∃ report, (r.episode e g).result = .ok report ∧
      report.warnings = ["add failed: a.rs: fatal: no match"] ∧
      (⟨.add "b.rs", no⟩ : Process) ∈ Git.processes (r.episode e g) ∧
      ¬ ∀ f ∈ (Git.processes (r.episode e g)).filterMap Process.rejection,
        Named report.warnings f.path := by
  intro r e t no g
  have hother : ∀ {w : String}, Text.occurs "b.rs".toList w.toList = false → ¬ Named [w] "b.rs" := by
    rintro w hw ⟨w', hw', hin⟩
    rw [List.mem_singleton.1 hw', hw] at hin
    cases hin
  obtain ⟨hgit, hrecorder⟩ := unstaged_told r e rfl
  constructor
  · have hsaid : (r.episode e t).result.toOption.map (·.warnings) =
        some ["add failed: fatal: pathspec 'a.rs' did not match any files"] := by decide +kernel
    have hfirst : (t.rejections ["a.rs", "b.rs", "c.rs"]).head?.map (·.path) = some "a.rs" := by
      decide +kernel
    obtain ⟨first, hhead, hpath⟩ := Option.map_eq_some_iff.1 hfirst
    cases hres : (r.episode e t).result with
    | error why => rw [hres] at hsaid; cases hsaid
    | ok report =>
      rw [hres] at hsaid
      have hwarnings : report.warnings = _ := Option.some.inj hsaid
      have hnamed := (hrecorder t report (by decide +kernel) hres).1.first first hhead
      rw [hpath] at hnamed
      refine ⟨report, rfl, hwarnings, hnamed (by decide) (by decide), by decide +kernel, ?_⟩
      rw [hwarnings]; exact hother (by decide)
  · have hsaid : (r.episode e g).result.toOption.map (·.warnings) =
        some ["add failed: a.rs: fatal: no match"] := by decide +kernel
    have hran : (⟨.add "b.rs", no⟩ : Process) ∈ Git.processes (r.episode e g) := by decide +kernel
    cases hres : (r.episode e g).result with
    | error why => rw [hres] at hsaid; cases hsaid
    | ok report =>
      rw [hres] at hsaid
      have hwarnings : report.warnings = _ := Option.some.inj hsaid
      obtain ⟨f, hf, hpath⟩ := ((hgit g report (by decide +kernel) hres).2 "b.rs").2
        ⟨no, hran, by decide +kernel⟩
      refine ⟨report, rfl, hwarnings, hran, fun hall => ?_⟩
      have hnamed := hall f hf
      rw [hpath, hwarnings] at hnamed
      exact hother (by decide) hnamed

end Backdate
