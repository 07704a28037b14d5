import Backdate.Proofs.Completion
import Backdate.Proofs.DryRun
import Backdate.Proofs.Paths

/-!
# Replays on git from the command line

What a `replay` that is no dry run owes to its caller, whatever git replies
(`live_replay_contract`): no git without a plan, no event outside a repository,
and otherwise every event in order and a good end. What becomes of an event is
shown and does not reach the exit code.

* `run_isRepository`, `ran_currentBranch`: the calls before and after the events;
* `replay_completes`: a plan without NUL is replayed to its end;
* `inOrder_showAll`: what was shown holds the reports in order.
-/

namespace Backdate

open Calendar

/-! ## Before and after the events -/

/-- Asks whether the working directory belongs to a repository. -/
def Call.gitDir : Call := ⟨["rev-parse", "--git-dir"], []⟩

/-- Asks for the branch that is checked out. -/
def Call.showCurrent : Call := ⟨["branch", "--show-current"], []⟩

namespace Git

variable {g : Git}

/-- A process without NUL, in a directory that can be entered, takes the next reply. -/
theorem run_start {c : Call} (hc : c.hasNul = false) (hb : g.blocked = none) :
    ∃ g', (start c).run g = (.ok (g.script.headD {}), g') ∧ Ran g [⟨c, g.script.headD {}⟩] g' := by
  rcases start_cases c g with ⟨g', hrun, hran, -⟩ | ⟨why, g', -, -, hwhy⟩
  · exact ⟨g', hrun, hran⟩
  · exact absurd hwhy (not_notStarted hc hb)

theorem run_isRepository (hb : g.blocked = none) :
    ∃ g', isRepository.run g = (.ok (g.script.headD {}).succeeded, g') ∧
      Ran g [⟨.gitDir, g.script.headD {}⟩] g' := by
  obtain ⟨g', hrun, hran⟩ := run_start (c := .gitDir) (by decide) hb
  refine ⟨g', ?_, hran⟩
  show ((start .gitDir) >>= fun reply => pure reply.succeeded).run g = _
  rw [Act.run_bind, hrun]; rfl

/-- Asking for the branch is one call, whatever comes of it. -/
theorem ran_currentBranch (hb : g.blocked = none) :
    Ran g [⟨.showCurrent, g.script.headD {}⟩] (currentBranch.run g).2 := by
  obtain ⟨g', hrun, hran⟩ := run_start (c := .showCurrent) (by decide) hb
  have hsame : (currentBranch.run g).2 = g' := by
    show ((start .showCurrent >>= fun reply => if reply.succeeded then
      pure (Text.trimmed reply.output) else throw .noCurrentBranch : Act Git String).run g).2 = _
    rw [Act.run_bind, hrun]
    simp only
    split <;> rfl
  rw [hsame]; exact hran

end Git

/-! ## What is shown -/

/-- The pieces stand in a text, in order and apart from each other. -/
def Text.InOrder : List String → String → Prop
  | [], _ => True
  | piece :: pieces, s => ∃ before after, s = before ++ (piece ++ after) ∧ InOrder pieces after

theorem Text.InOrder.after {pieces : List String} {s : String} (h : InOrder pieces s)
    (before : String) : InOrder pieces (before ++ s) := by
  cases pieces with
  | nil => trivial
  | cons piece pieces =>
    obtain ⟨a, b, rfl, hrest⟩ := h
    exact ⟨before ++ a, b, by rw [String.append_assoc], hrest⟩

/-- What is shown holds the reports in order, with headings in between. -/
theorem inOrder_showAll (colour : Bool) {pieces : List String} {rest : String}
    (h : Text.InOrder pieces rest) (shown : List Shown) :
    Text.InOrder ((shown.filterMap Shown.report?).map (·.render colour) ++ pieces)
      (Setting.showAll colour shown ++ rest) := by
  induction shown with
  | nil => exact h.after _
  | cons item shown ih =>
    have hshow : Setting.showAll colour (item :: shown) =
        item.render colour ++ Setting.showAll colour shown := String.join_cons
    rw [hshow, String.append_assoc]
    cases item with
    | heading text => exact ih.after _
    | report r =>
      refine ⟨"", "\n" ++ (Setting.showAll colour shown ++ rest), ?_, ih.after "\n"⟩
      show r.render colour ++ "\n" ++ (Setting.showAll colour shown ++ rest) = _
      rw [String.empty_append, String.append_assoc]

/-- **What a replay owes to its caller once it gets to the events**, given what came of them: a good
end, a report for every event, git called for nothing else but to look where it is, and all reports
on the console before their sum. -/
structure Answer.Completes (a : Answer) (colour : Bool) (es : List Event)
    (live : List (Episode Git)) : Prop where
  exit : a.exit = 0
  events : live.map (·.event) = es
  calls : a.calls =
    .gitDir :: live.flatMap (fun ep => (Git.processes ep).map (·.call)) ++ [.showCurrent]
  stdout : ∃ reports, live.map (·.result) = reports.map .ok ∧
    Text.InOrder (reports.map (·.render colour) ++ [(Summary.ofReports reports).render colour])
      a.stdout

namespace Setting

variable {s : Setting} {path : String} {repository : Option String} {p : Plan}

/-! ## The events -/

/-- Git before its first process. -/
def unasked (s : Setting) (repository : Option String) : Git :=
  { script := s.script, blocked := s.files.blocked? s.directory (repository.getD s.directory) }

/-- Git when the events begin: it has been asked whether it is in a repository. -/
def asked (s : Setting) (repository : Option String) : Git :=
  (Git.isRepository.run (s.unasked repository)).2

/-- The events of a plan as they are replayed on git. -/
def live (s : Setting) (path : String) (repository : Option String) (p : Plan) :
    List (Episode Git) :=
  (s.replayer path repository p).episodes p.events (s.asked repository)

theorem run_asked
    (hopen : s.files.blocked? s.directory (repository.getD s.directory) = none) :
    Git.isRepository.run (s.unasked repository) =
        (.ok (s.script.headD {}).succeeded, s.asked repository) ∧
      (s.asked repository).ran.map (·.call) = [.gitDir] ∧ (s.asked repository).blocked = none := by
  obtain ⟨g, hrun, hran⟩ := Git.run_isRepository (g := s.unasked repository) hopen
  have hasked : s.asked repository = g := congrArg Prod.snd hrun
  rw [hasked]
  exact ⟨hrun, by rw [hran.ran]; rfl, hran.blocked.trans hopen⟩

/-- The plan's own path is all that is excluded besides what the plan says. -/
theorem mem_texts {e : Event} {text : String} (h : text ∈ (s.replayer path repository p).texts e) :
    text ∈ p.replayer.texts e ∨
      s.files.relative? s.directory path (repository.getD s.directory) = some text := by
  rcases e with ⟨branch, author, time, action⟩
  cases action with
  | change message paths =>
    cases paths with
    | everything =>
      rcases List.mem_append.1 h with h | h
      · exact .inl (List.mem_append_left _ h)
      rcases List.mem_cons.1 h with rfl | h
      · exact .inl (List.mem_append_right _ List.mem_cons_self)
      rcases List.mem_append.1 h with h | h
      · exact .inl (List.mem_append_right _ (List.mem_cons_of_mem _ h))
      · exact .inr (Option.mem_toList.1 h)
    | nothing => exact .inl h
    | listed paths => exact .inl h
  | deletion message paths => exact .inl h
  | merge source => exact .inl h
  | tag name message => exact .inl h

/-- **A plan without NUL is replayed to its end**, whatever git replies. -/
theorem replay_completes {g : Git} (hload : Plan.load s.files s.directory path = .ok p)
    (hdirectory : Text.hasNul s.directory = false)
    (hnul : ∀ e ∈ p.events, ∀ text ∈ p.replayer.texts e, Text.hasNul text = false)
    (hb : g.blocked = none) :
    ∃ total, ((s.replayer path repository p).replay p.events g).result = .ok total := by
  obtain ⟨text, -, hparse⟩ := Plan.parse_of_load hload
  refine Replayer.result_of_reported (P := fun g : Git => g.blocked = none) hb fun e he g hb => ?_
  obtain ⟨m, hm⟩ := Plan.resolves_of_parse hparse e he
  refine Git.apply_reports hm (List.any_eq_false.2 fun text htext => ?_) hb
  rw [Bool.not_eq_true]
  rcases mem_texts htext with htext | hown
  · exact hnul e he text htext
  · exact FileTree.hasNul_relative (Text.zero_not_mem_encode hdirectory) hown

/-! ## The command -/

/-- A repository that can be entered is known. -/
theorem known_of_open
    (hopen : s.files.blocked? s.directory (repository.getD s.directory) = none) :
    s.repository? repository ≠ none := by
  cases repository with
  | some named => exact Option.some_ne_none named
  | none =>
    have hthere : s.files.hasDirectory s.directory s.directory = true :=
      FileTree.hasDirectory_of_open hopen
    unfold repository?
    rw [hthere]
    exact Option.some_ne_none s.directory

/-- Outside a repository git is asked for nothing more. -/
theorem gitRun_refused {r : Replayer} {head : String} (hgit : s.hasGit = true)
    (hopen : s.files.blocked? s.directory (repository.getD s.directory) = none)
    (hno : (s.script.headD {}).succeeded = false) :
    ∃ done why, s.gitRun p r (repository.getD s.directory) head = (done, some why) ∧
      done.calls = [.gitDir] := by
  obtain ⟨hrun, hcalls, -⟩ := run_asked hopen
  rw [hno] at hrun
  unfold unasked at hrun
  unfold gitRun
  simp only [hgit, Bool.not_true, Bool.false_eq_true, if_false, hrun]
  exact ⟨_, _, rfl, hcalls⟩

/-- In a repository the session is run, git is asked for its branch, and the sum is shown. -/
theorem gitRun_accepted {r : Replayer} (head : String) {total : Summary} (hgit : s.hasGit = true)
    (hopen : s.files.blocked? s.directory (repository.getD s.directory) = none)
    (hyes : (s.script.headD {}).succeeded = true)
    (htotal : (r.session p.entries (s.asked repository)).result = .ok total) :
    ∃ done between, s.gitRun p r (repository.getD s.directory) head = (done, none) ∧
      done.calls = (Git.currentBranch.run
        (r.session p.entries (s.asked repository)).tool).2.ran.map (·.call) ∧
      done.stdout = head ++ (showAll s.colour (r.session p.entries (s.asked repository)).shown ++
        (between ++ (total.render s.colour ++ "\n"))) := by
  obtain ⟨hrun, -, -⟩ := run_asked hopen
  rw [hyes] at hrun
  unfold unasked at hrun
  unfold gitRun
  simp only [hgit, Bool.not_true, Bool.false_eq_true, if_false, hrun, htotal]
  rcases Git.currentBranch.run (r.session p.entries (s.asked repository)).tool with ⟨why | branch, g⟩
  · exact ⟨_, "\n" ++ "" ++ "\n", rfl, rfl, by simp only [progress, String.append_assoc]⟩
  · exact ⟨_, "\n" ++ ("\nLeft on branch: " ++ branch ++ "\n") ++ "\n", rfl, rfl,
      by simp only [progress, String.append_assoc]⟩

/-- The calls of a session, and of the question after it. -/
theorem calls_session (r : Replayer) (p : Plan) {g : Git} (hb : g.blocked = none) :
    (Git.currentBranch.run (r.session p.entries g).tool).2.ran.map (·.call) =
      g.ran.map (·.call) ++
        ((r.episodes p.events g).flatMap (fun ep => (Git.processes ep).map (·.call)) ++
          [.showCurrent]) := by
  have htool : (r.session p.entries g).tool = (r.replayOnto {} p.events g).tool :=
    (Replayer.showFrom_eq_replayOnto none {} p.entries g).2.1
  rw [htool, (Git.ran_currentBranch (Git.replayOnto_blocked hb)).ran, Git.replayOnto_ran]
  simp only [List.map_append, List.map_flatMap, List.append_assoc, List.map_cons, List.map_nil]

/-- **A replay to the end of a plan leaves behind what it owes.** -/
theorem gitRun_completes {head : String} {total : Summary} (hgit : s.hasGit = true)
    (hopen : s.files.blocked? s.directory (repository.getD s.directory) = none)
    (hyes : (s.script.headD {}).succeeded = true)
    (hok : ((s.replayer path repository p).replay p.events (s.asked repository)).result =
      .ok total) :
    ∃ done, s.gitRun p (s.replayer path repository p) (repository.getD s.directory) head =
        (done, none) ∧
      (done.answer s.log none).Completes s.colour p.events (s.live path repository p) := by
  obtain ⟨hresult, -, hreports⟩ := Replayer.showFrom_eq_replayOnto
    (r := s.replayer path repository p) none {} p.entries (s.asked repository)
  obtain ⟨done, between, hrun, hcalls, hstdout⟩ :=
    gitRun_accepted head hgit hopen hyes (hresult.trans hok)
  obtain ⟨hevents, hresults⟩ := Replayer.episodes_of_result hok
  obtain ⟨-, hasked, hblocked⟩ := run_asked hopen
  rw [calls_session _ _ hblocked, hasked] at hcalls
  refine ⟨done, hrun, rfl, hevents, hcalls, ((s.replayer path repository p).replayOnto {} p.events
    (s.asked repository)).reports.map (·.2), hresults.trans (List.map_map ..).symm, ?_⟩
  -- the sum ends the text, and the reports come before it as they were shown
  have hsum : Text.InOrder [total.render s.colour]
      (between ++ (total.render s.colour ++ "\n")) := ⟨between, "\n", rfl, trivial⟩
  have hshown := (inOrder_showAll s.colour hsum
    ((s.replayer path repository p).session p.entries (s.asked repository)).shown).after head
  rw [← hstdout, ← Session.reports, Replayer.session, hreports] at hshown
  rw [Summary.ofReports, ← Replayer.result_eq_foldl hok]
  exact hshown

end Setting

/-- **What a replay on git owes to its caller**, if there is a git and the repository can be entered.
A plan that does not load ends it before git is called. Outside a repository it ends after the call
that found this out. Otherwise a plan that hands over no NUL is replayed to its end and ends well,
whatever git replies: no failure of an event, and none to tell the branch, reaches the exit code.

The working directory comes in because the plan's own path is left out of the history too, and may
lead through it; no directory has a NUL in its name. -/
theorem live_replay_contract (s : Setting) {args : List String} {path : String}
    {repository : Option String}
    (hargs : Request.parse args = some (.command (.replay path repository false)))
    (hgit : s.hasGit = true)
    (hopen : s.files.blocked? s.directory (repository.getD s.directory) = none) :
    (∀ why, Plan.load s.files s.directory path = .error why →
      (answer s args).exit = 1 ∧ (answer s args).calls = []) ∧
    ∀ p, Plan.load s.files s.directory path = .ok p →
      ((s.script.headD {}).succeeded = false →
        (answer s args).exit = 1 ∧ (answer s args).calls = [.gitDir]) ∧
      ((s.script.headD {}).succeeded = true → Text.hasNul s.directory = false →
        (∀ e ∈ p.events, ∀ text ∈ p.replayer.texts e, Text.hasNul text = false) →
        (answer s args).Completes s.colour p.events (s.live path repository p)) := by
  rw [answer_command hargs]
  simp only [Setting.run]
  refine ⟨fun why hload => ?_, fun p hload => ?_⟩
  · obtain ⟨hcheck, hsame⟩ := Setting.replay_not_loaded hload repository false
    rw [hsame, hcheck]
    exact ⟨rfl, rfl⟩
  · rw [Setting.replay_known hload (Setting.known_of_open hopen), if_neg Bool.false_ne_true]
    refine ⟨fun hno => ?_, fun hyes hdirectory hnul => ?_⟩
    · obtain ⟨done, why, hrun, hcalls⟩ := Setting.gitRun_refused hgit hopen hno
      rw [hrun]
      exact ⟨rfl, hcalls⟩
    · obtain ⟨total, hok⟩ :=
        Setting.replay_completes hload hdirectory hnul (Setting.run_asked hopen).2.2
      obtain ⟨done, hrun, hcompletes⟩ := Setting.gitRun_completes hgit hopen hyes hok
      rw [hrun]
      exact hcompletes

set_option maxRecDepth 20000 in
/-- A replay that ends well though half of its calls fail, the last one among them. -/
theorem failing_replay_completes :
    let text := "[anchor]\nstart = \"2025-10-18T09:00:00\"\n" ++
      "[authors.first]\nname = \"Ada\"\nemail = \"a@x\"\n" ++
      "[authors.second]\nname = \"Grace\"\nemail = \"g@x\"\n" ++
      "[[events]]\nkind = \"change\"\nbranch = \"main\"\nauthor = \"first\"\n" ++
      "day = 0\nhour = 9\nmessage = \"start\"\nstage_all = true\n" ++
      "[[events]]\nkind = \"merge\"\ntarget = \"main\"\nsource = \"topic\"\n" ++
      "author = \"second\"\nday = 1\nhour = 9\n"
    let fails : Reply := { exit := 1 }
    let script : List Reply := [{}, fails, fails, {}, {}, fails, fails, {}, fails, fails]
    let s : Setting := ⟨.directory [("work", .directory [("plan.toml", .file (Text.encode text))])],
      "/work", true, script, false, false⟩
    (answer s ["replay", "plan.toml"]).exit = 0 ∧
      (answer s ["replay", "plan.toml"]).calls.map (·.args) =
        [["rev-parse", "--git-dir"], ["checkout", "-q", "main", "--"],
          ["rev-parse", "--verify", "--quiet", "refs/heads/main"], ["checkout", "-q", "-b", "main"],
          ["add", "-A", "--", "."], ["reset", "-q", "--", "plan.toml"],
          ["commit", "-q", "-m", "start", "--allow-empty"], ["checkout", "-q", "main", "--"],
          ["merge", "--no-ff", "-m", "Merge branch 'topic' into main", "topic"],
          ["branch", "--show-current"]] := by
  intro text fails script s
  let p : Plan := ⟨⟨⟨2025, 10, 18, by decide⟩, ⟨9, 0, 0, by decide, by decide, by decide⟩⟩,
    ⟨⟨"Ada", "a@x"⟩, ⟨"Grace", "g@x"⟩⟩, [],
    [⟨none, ⟨"main", .first, ⟨0, 9, 0⟩, .change "start" .everything⟩⟩,
     ⟨none, ⟨"main", .second, ⟨1, 9, 0⟩, .merge "topic"⟩⟩]⟩
  have hchars : ∃ cs, text.toList = cs ∧ Plan.ofChars cs = some p := by
    refine ⟨?cs, ?hcs, ?hp⟩
    case hcs =>
      simp only [text, String.toList_append, String.reduceToList, List.cons_append, List.nil_append]
      exact rfl
    case hp => decide +kernel
  obtain ⟨cs, hcs, hp⟩ := hchars
  clear_value text
  have haccess (content : List UInt8) :
      (FileTree.directory [("work", .directory [("plan.toml", .file content)])]).access
        "/work" "plan.toml" = .ok (.file content) := rfl
  have hread : s.files.read s.directory "plan.toml" = .ok text :=
    FileTree.read_encode (haccess _)
  have hload := Plan.load_of_parse hread (Plan.parse_of_chars hcs hp)
  have hargs : Request.parse ["replay", "plan.toml"] =
      some (.command (.replay "plan.toml" none false)) := by decide +kernel
  have hblocked (content : List UInt8) :
      (FileTree.directory [("work", .directory [("plan.toml", .file content)])]).blocked?
        "/work" "/work" = none := rfl
  have hown (content : List UInt8) :
      (FileTree.directory [("work", .directory [("plan.toml", .file content)])]).relative?
        "/work" "plan.toml" "/work" = some "plan.toml" := by
    show some (String.intercalate "/" [Text.decodeLossy (Text.encode "plan.toml")]) = _
    rw [Text.decodeLossy_encode, String.intercalate_singleton]
  have hopen : s.files.blocked? s.directory ((none : Option String).getD s.directory) = none :=
    hblocked _
  have hdirectory : Text.hasNul "/work" = false := by decide
  have hdone := ((live_replay_contract s hargs rfl hopen).2 p hload).2 rfl hdirectory (by decide)
  have hlive : s.live "plan.toml" none p = (⟨p.anchor, p.authors, ["plan.toml"]⟩ : Replayer).episodes
      p.events (Git.isRepository.run { script := script }).2 := by
    unfold Setting.live Setting.asked Setting.replayer Setting.unasked
    simp only [s, Option.getD_none, hown, hblocked]
    rfl
  refine ⟨hdone.exit, ?_⟩
  rw [hdone.calls, hlive]
  decide +kernel

end Backdate
