import Backdate.Command.Run
import Backdate.Proofs.Acceptance
import Backdate.Proofs.Recording
import Backdate.Proofs.Totals

/-!
# Dry runs

A dry run goes to a recorder that takes every path to be there and makes no step
fail. On such a **willing** recorder only one thing can go wrong with the events
of a checked plan: a merge of a branch that no earlier event was on.

* `Willing` is kept by every operation, and with the branches of the events so
  far it is all that their outcomes depend on (`willing_apply`).
* So a dry run ends well for every plan that is accepted, as a check of the plan
  does, and both refuse the others in the same words (`check_agrees_with_dryRun`).
  Where there is no repository, since the working directory is gone, a dry run
  ends before the first event (`replay_unknown`).
-/

namespace Backdate

open Calendar

/-- A merge of a branch that is not among the given ones. -/
def Event.Stray (earlier : List String) (e : Event) : Prop :=
  ∃ source, e.action = .merge source ∧ source ∉ earlier

/-- **What a dry run says of an event**, given the branches of those before it: nothing to warn of,
and a success, save for a merge of a branch that is not among them. -/
structure Report.Dry (earlier : List String) (e : Event) (report : Report) : Prop where
  warnings : report.warnings = []
  success : ¬ e.Stray earlier → report.outcome = .success
  failure : e.Stray earlier → ∃ detail, report.outcome = .failure "merge" detail

/-- What a dry run relies on: a moment, something to delete, and no merge of a branch into
itself. -/
structure Event.Sound (a : Anchor) (e : Event) : Prop where
  moment : ∃ m, a.resolve e.time = .ok m
  deletion : ∀ message, e.action ≠ .deletion message []
  merge : e.action ≠ .merge e.branch

/-- The events of a checked plan are sound. -/
theorem Plan.sound_of_parse {text : String} {p : Plan} (h : parse text = .ok p) :
    ∀ e ∈ p.events, e.Sound p.anchor := by
  intro e he
  obtain ⟨⟨heading, author, time, action⟩, hvalid, rfl⟩ := valid_of_parse h e he
  have haction := hvalid.action
  refine ⟨hvalid.moment, fun message heq => ?_, fun heq => ?_⟩
  · cases action with
    | change branch message paths stageAll => cases paths <;> cases stageAll <;> cases heq
    | deletion branch message paths => cases heq; exact haction.2.2.1 rfl
    | merge target source => cases heq
    | tag name branch message => cases heq
  · cases action with
    | change branch message paths stageAll => cases paths <;> cases stageAll <;> cases heq
    | deletion branch message paths => cases heq
    | merge target source => exact haction.2.2 (Action.merge.inj heq).symm
    | tag name branch message => cases heq

/-! ## Willing recorders -/

theorem Outcome.eq_success {o : Outcome} (h : o.isSuccess = true) : o = .success := by
  cases o with
  | success => rfl
  | failure step detail => cases h

namespace Recorder

variable {t : Recorder} {known : List String} {r : Replayer} {e : Event}

/-- **A recorder that makes nothing fail**, and knows the given branches. -/
structure Willing (known : List String) (t : Recorder) : Prop where
  permissive : t.permissive = true
  failing : ∀ step, step ∉ t.failing
  branches : ∀ branch, branch ∈ t.branches ↔ branch ∈ known

theorem Willing.hasPath (h : Willing known t) (path : String) : t.hasPath path = true := by
  unfold Recorder.hasPath; rw [h.permissive]; rfl

theorem Willing.note (h : Willing known t) (n : Note) : Willing known (Tool.note n t) :=
  ⟨h.permissive, h.failing, h.branches⟩

theorem willing_new : Willing [] ({ permissive := true } : Recorder) :=
  ⟨rfl, fun _ h => absurd h List.not_mem_nil, fun _ => Iff.rfl⟩

/-- Going to a branch succeeds, and from then on it is known. -/
theorem Willing.switch (h : Willing known t) (branch : String) :
    (t.switch branch).1 = .success ∧ Willing (known ++ [branch]) (t.switch branch).2 := by
  have hfree : "checkout" ∉ t.failing := h.failing "checkout"
  have hrun : t.switch branch = (.success, { t with
      calls := t.calls ++ [.switch branch (decide (branch ∉ t.branches))]
      branches := t.branches.insert branch
      current := some branch }) := by
    simp [Recorder.switch, Recorder.forced, Recorder.record, hfree]
  rw [hrun]
  refine ⟨rfl, h.permissive, h.failing, fun b => ?_⟩
  show b ∈ t.branches.insert branch ↔ _
  rw [Names.mem_insert, h.branches, List.mem_append, List.mem_singleton]
  exact or_comm

/-- Only going to a branch makes one known. -/
theorem Willing.step (h : Willing known t) {op : Operation} (hop : ∀ branch, op ≠ .switch branch) :
    Willing known (t.step op).2 := by
  have hsame : (t.step op).2.permissive = t.permissive ∧ (t.step op).2.branches = t.branches := by
    cases op with
    | switch branch => exact absurd rfl (hop branch)
    | stage paths => simp only [Recorder.step, stage]; split <;> exact ⟨rfl, rfl⟩
    | remove path => simp only [Recorder.step, remove]; split <;> exact ⟨rfl, rfl⟩
    | stageAllExcept excluded => exact ⟨rfl, rfl⟩
    | commit message stamp allowEmpty => exact ⟨rfl, rfl⟩
    | merge source message stamp => exact ⟨rfl, rfl⟩
    | tag name message stamp => exact ⟨rfl, rfl⟩
  refine ⟨hsame.1.trans h.permissive, ?_, ?_⟩
  · rw [(t.step_records op).2]; exact h.failing
  · rw [hsame.2]; exact h.branches

/-- **Every preparation succeeds**, what is staged stays staged, and a removal is. -/
theorem Willing.prepare (h : Willing known t) {op : Operation} (hop : op.prepares = true) :
    (t.step op).1 = .success ∧ (∀ p ∈ t.index, p ∈ (t.step op).2.index) ∧
      ∀ path, op = .remove path → path ∈ (t.step op).2.index := by
  cases op with
  | stage paths =>
    have hok : (t.stage paths).1.isSuccess = true := by
      rw [isSuccess_stage]; simp [h.hasPath]
    refine ⟨Outcome.eq_success hok, fun p hp => ?_, fun path heq => by cases heq⟩
    simp only [Recorder.step, stage]
    split <;> exact Names.mem_insertMany.2 (.inr hp)
  | stageAllExcept excluded =>
    exact ⟨rfl, fun p hp => Names.mem_insertMany.2 (.inr hp), fun path heq => by cases heq⟩
  | remove path =>
    have hpath : (t.record (.remove path)).hasPath path = true := h.hasPath path
    have hrun : t.remove path = (.success, { t.record (.remove path) with
        worktree := t.worktree.erase path
        index := t.index.insert path }) := by
      unfold remove; simp only [hpath, if_true]; rfl
    simp only [Recorder.step, hrun]
    refine ⟨trivial, fun p hp => Names.mem_insert.2 (.inr hp), fun p heq => ?_⟩
    cases heq; exact Names.mem_insert.2 (.inl rfl)
  | switch branch => cases hop
  | commit message stamp allowEmpty => cases hop
  | merge source message stamp => cases hop
  | tag name message stamp => cases hop

theorem ne_switch_of_prepares {op : Operation} (hop : op.prepares = true) :
    ∀ branch, op ≠ .switch branch := by
  rintro branch rfl; cases hop

theorem Willing.performAll (h : Willing known t) {ops : List Operation}
    (hops : ∀ op ∈ ops, op.prepares = true) :
    ∃ t', (Operation.performAll ops).run t = (.ok [], t') ∧ Willing known t' ∧
      (∀ p ∈ t.index, p ∈ t'.index) ∧ ∀ path, .remove path ∈ ops → path ∈ t'.index := by
  induction ops generalizing t with
  | nil => exact ⟨t, rfl, h, fun _ hp => hp, fun _ hp => absurd hp List.not_mem_nil⟩
  | cons op ops ih =>
    obtain ⟨hop, hrest⟩ := List.forall_mem_cons.1 hops
    obtain ⟨hok, hkept, hgone⟩ := h.prepare hop
    obtain ⟨t', hrun, h', hkept', hgone'⟩ := ih (h.step (ne_switch_of_prepares hop)) hrest
    refine ⟨t', ?_, h', fun p hp => hkept' p (hkept p hp), fun path hpath => ?_⟩
    · rw [Operation.performAll, Act.run_bind, run_perform, hok]
      simp only [Act.run_bind, hrun]; rfl
    · rcases List.mem_cons.1 hpath with heq | hpath
      · exact hkept' path (hgone path heq.symm)
      · exact hgone' path hpath

/-- A commit succeeds if it may be empty or there is something in the index. -/
theorem Willing.commit (h : Willing known t) (message : String) (stamp : Stamp) {allowEmpty : Bool}
    (hfull : (t.index.toList.isEmpty && !allowEmpty) = false) :
    (t.commit message stamp allowEmpty).1 = .success := by
  unfold Recorder.commit
  simp only [hfull, Bool.false_eq_true, if_false]
  exact if_neg (h.failing "commit")

/-- A merge succeeds if the branch is known. -/
theorem Willing.merge (h : Willing known t) (source message : String) (stamp : Stamp) :
    (source ∈ known → (t.merge source message stamp).1 = .success) ∧
      (source ∉ known → ∃ detail, (t.merge source message stamp).1 = .failure "merge" detail) := by
  have hfree : "merge" ∉ (t.record (.merge source message stamp)).failing := h.failing "merge"
  refine ⟨fun hin => ?_, fun hno => ?_⟩
  · have hknown : source ∈ (t.record (.merge source message stamp)).branches :=
      (h.branches source).2 hin
    exact (if_neg hfree).trans (if_pos hknown)
  · have hunknown : source ∉ (t.record (.merge source message stamp)).branches :=
      fun hin => hno ((h.branches source).1 hin)
    exact ⟨_, (if_neg hfree).trans (if_neg hunknown)⟩

/-- **What a willing recorder makes of the operation that writes**: only a merge of a branch that is
not known fails, provided that a deletion has something in the index. -/
theorem Willing.write (h : Willing known t) (stamp : Stamp)
    (hindex : ∀ message paths, e.action = .deletion message paths → ∃ p, p ∈ t.index) :
    (¬ e.Stray known → (t.step (e.writing stamp)).1 = .success) ∧
      (e.Stray known → ∃ detail, (t.step (e.writing stamp)).1 = .failure "merge" detail) := by
  rcases e with ⟨branch, author, time, action⟩
  cases action with
  | change message paths =>
    refine ⟨fun _ => h.commit message stamp (Bool.and_false _), ?_⟩
    rintro ⟨source, heq, -⟩; cases heq
  | deletion message paths =>
    obtain ⟨p, hp⟩ := hindex message paths rfl
    have hfull : t.index.toList.isEmpty = false :=
      List.isEmpty_eq_false_iff_exists_mem.2 ⟨p, hp⟩
    refine ⟨fun _ => h.commit message stamp (by rw [hfull]; rfl), ?_⟩
    rintro ⟨source, heq, -⟩; cases heq
  | tag name message =>
    refine ⟨fun _ => if_neg (h.failing "tag"), ?_⟩
    rintro ⟨source, heq, -⟩; cases heq
  | merge source =>
    obtain ⟨hsuccess, hfailure⟩ := h.merge source (mergeMessage source branch) stamp
    refine ⟨fun hs => hsuccess ?_, ?_⟩
    · by_cases hin : source ∈ known
      · exact hin
      · exact absurd ⟨source, rfl, hin⟩ hs
    · rintro ⟨other, heq, hno⟩
      cases heq; exact hfailure hno

theorem ne_switch_writing (e : Event) (stamp : Stamp) :
    ∀ branch, e.writing stamp ≠ .switch branch := by
  intro branch heq
  unfold Event.writing at heq
  split at heq <;> cases heq

theorem Willing.noted (h : Willing known t) (report : Report) :
    ∃ t', (Replayer.noted report).run t = (.ok report, t') ∧ Willing known t' := by
  unfold Replayer.noted
  cases report.outcome.describe with
  | none => exact ⟨t, rfl, h⟩
  | some line => exact ⟨_, rfl, h.note _⟩

/-- The merged branch of a sound event is not its own. -/
theorem stray_append (he : e.action ≠ .merge e.branch) :
    e.Stray (known ++ [e.branch]) ↔ e.Stray known := by
  unfold Event.Stray
  constructor
  · rintro ⟨source, heq, hno⟩
    exact ⟨source, heq, fun hin => hno (List.mem_append_left _ hin)⟩
  · rintro ⟨source, heq, hno⟩
    refine ⟨source, heq, fun hin => ?_⟩
    rcases List.mem_append.1 hin with hin | hin
    · exact hno hin
    · rw [List.mem_singleton.1 hin] at heq; exact he heq

/-- **A sound event on a willing recorder**: it is reported as a dry run has it, and its branch is
known afterwards. -/
theorem willing_apply (h : Willing known t) (he : e.Sound r.anchor) :
    ∃ report t', (r.apply e).run t = (.ok report, t') ∧ report.Dry known e ∧
      Willing (known ++ [e.branch]) t' := by
  obtain ⟨m, hm⟩ := he.moment
  obtain ⟨hswitch, h₁⟩ := h.switch e.branch
  obtain ⟨t₂, hprepare, h₂, -, hgone⟩ := h₁.performAll (r.prepares_preparations e)
  -- a deletion lists a path, and its removal is still in the index when it commits
  have hindex : ∀ message paths, e.action = .deletion message paths → ∃ p, p ∈ t₂.index := by
    intro message paths haction
    cases paths with
    | nil => exact absurd haction (he.deletion message)
    | cons path paths =>
      refine ⟨path, hgone path ?_⟩
      unfold Replayer.preparations; rw [haction]; exact List.mem_cons_self
  have hwrite := h₂.write (r.stamp e.author m) hindex
  -- the event's own branch is known by now, but that is not the one it merges
  rw [stray_append he.merge] at hwrite
  have h₃ := h₂.step (ne_switch_writing e (r.stamp e.author m))
  obtain ⟨t₄, hnoted, h₄⟩ := h₃.noted (e.report m (t₂.step (e.writing (r.stamp e.author m))).1 [])
  refine ⟨e.report m (t₂.step (e.writing (r.stamp e.author m))).1 [], t₄, ?_,
    ⟨rfl, hwrite.1, hwrite.2⟩, h₄⟩
  -- the run of the event, one operation after the other
  have hswitched : ((Operation.switch e.branch).perform : Act Recorder Outcome).run t =
      (.ok .success, (t.switch e.branch).2) := by
    rw [← hswitch]; exact run_perform _ t
  rw [Replayer.apply_eq, Replayer.perform_eq, Replayer.resolve_eq hm, pure_bind, Act.run_bind,
    Act.run_bind, hswitched]
  simp only [Outcome.isSuccess, if_true, Replayer.onBranch, Act.run_bind, hprepare, run_perform]
  exact hnoted

/-- **A whole dry run.** -/
theorem willing_replayOnto {es : List Event} (hes : ∀ e ∈ es, e.Sound r.anchor)
    (h : Willing known t) (sm : Summary) :
    (∃ total, (r.replayOnto sm es t).result = .ok total) ∧
      ∀ before e after, es = before ++ e :: after →
        ∃ report, (r.replayOnto sm es t).reports[before.length]? = some (e, report) ∧
          report.Dry (known ++ before.map (·.branch)) e := by
  -- the branches that are known grow with the part of the list that is behind
  induction es generalizing known t sm with
  | nil =>
    refine ⟨⟨sm, rfl⟩, fun before e after heq => ?_⟩
    exact absurd heq.symm (by simp)
  | cons d es ih =>
    obtain ⟨hd, hrest⟩ := List.forall_mem_cons.1 hes
    obtain ⟨report, t₁, hrun, hdry, h₁⟩ := willing_apply h hd
    obtain ⟨hresult, hreports⟩ := ih hrest h₁ (sm.record report)
    rw [Replayer.replayOnto_cons_ok hrun]
    refine ⟨hresult, fun before e after heq => ?_⟩
    cases before with
    | nil =>
      cases heq
      exact ⟨report, rfl, by rw [List.map_nil, List.append_nil]; exact hdry⟩
    | cons b before =>
      obtain ⟨rfl, hes⟩ := List.cons.inj heq
      obtain ⟨later, hlater, hdry⟩ := hreports before e after hes
      rw [List.append_assoc] at hdry
      exact ⟨later, hlater, hdry⟩

end Recorder

/-! ## Commands -/

namespace Setting

/-- The replayer of a plan that was loaded from a path: the path is excluded too, if it lies in the
repository. -/
def replayer (s : Setting) (path : String) (repository : Option String) (p : Plan) : Replayer :=
  ⟨p.anchor, p.authors,
    p.exclude ++ (s.files.relative? s.directory path (repository.getD s.directory)).toList⟩

/-- What a dry run of a plan does on the recorder. -/
def rehearsal (s : Setting) (path : String) (repository : Option String) (p : Plan) :
    Session Recorder :=
  (s.replayer path repository p).session p.entries { permissive := true }

/-- **A plan that is loaded is rehearsed to its end**, with a report for every event. -/
theorem rehearsal_ends {s : Setting} {path : String} (repository : Option String) {p : Plan}
    (h : Plan.load s.files s.directory path = .ok p) :
    (∃ total, (s.rehearsal path repository p).result = .ok total) ∧
      (s.rehearsal path repository p).reports.length = p.entries.length ∧
      ∀ before e after, p.events = before ++ e :: after →
        ∃ report, (s.rehearsal path repository p).reports[before.length]? = some report ∧
          report.Dry (before.map (·.branch)) e := by
  obtain ⟨text, -, hparse⟩ := Plan.parse_of_load h
  obtain ⟨⟨total, hok⟩, hreports⟩ :=
    Recorder.willing_replayOnto (r := s.replayer path repository p) (Plan.sound_of_parse hparse)
      Recorder.willing_new {}
  obtain ⟨hresult, -, hshown⟩ := Replayer.showFrom_eq_replayOnto (r := s.replayer path repository p)
    none {} p.entries ({ permissive := true } : Recorder)
  have hlist : (s.rehearsal path repository p).reports =
      ((s.replayer path repository p).replayOnto {} p.events
        ({ permissive := true } : Recorder)).reports.map (·.2) := hshown
  refine ⟨⟨total, hresult.trans hok⟩, ?_, fun before e after heq => ?_⟩
  · have hevents := congrArg List.length (Replayer.events_of_result hok)
    rw [List.length_map] at hevents
    rw [hlist, List.length_map, hevents]
    exact List.length_map _
  · obtain ⟨report, hreport, hdry⟩ := hreports before e after heq
    rw [List.nil_append] at hdry
    exact ⟨report, by rw [hlist, List.getElem?_map, hreport]; rfl, hdry⟩

theorem eq_of_repository? {s : Setting} {named : Option String} {top : String}
    (h : s.repository? named = some top) : top = named.getD s.directory := by
  unfold repository? at h
  cases named with
  | some path => exact (Option.some.inj h).symm
  | none =>
    rw [Option.none_or] at h
    split at h
    · exact (Option.some.inj h).symm
    · cases h

/-- A replay of a plan that is loaded runs under its header, if the repository is known. -/
theorem replay_known {s : Setting} {path : String} {repository : Option String} {p : Plan}
    (h : Plan.load s.files s.directory path = .ok p) (hknown : s.repository? repository ≠ none)
    (dry : Bool) :
    s.replay path repository dry =
      if dry then s.dryRun p (s.replayer path repository p)
        (header s.colour p (repository.getD s.directory) dry)
      else s.gitRun p (s.replayer path repository p) (repository.getD s.directory)
        (header s.colour p (repository.getD s.directory) dry) := by
  obtain ⟨top, htop⟩ := Option.ne_none_iff_exists'.1 hknown
  unfold replay
  rw [h, htop, eq_of_repository? htop]
  rfl

/-- Otherwise it ends before anything is written. -/
theorem replay_unknown {s : Setting} {path : String} {repository : Option String} {p : Plan}
    (h : Plan.load s.files s.directory path = .ok p) (hunknown : s.repository? repository = none)
    (dry : Bool) : s.replay path repository dry = ({}, some .noDirectory) := by
  unfold replay
  rw [h, hunknown]

/-- A dry run shows its rehearsal after the header, calls git for nothing, and ends well. -/
theorem replay_dry {s : Setting} {path : String} {repository : Option String} {p : Plan}
    (h : Plan.load s.files s.directory path = .ok p) (hknown : s.repository? repository ≠ none) :
    ∃ done rest, s.replay path repository true = (done, none) ∧ done.calls = [] ∧
      done.stdout = header s.colour p (repository.getD s.directory) true ++
        (showAll s.colour (s.rehearsal path repository p).shown ++ rest) := by
  obtain ⟨⟨total, hok⟩, -⟩ := rehearsal_ends repository h
  have hsession : ((s.replayer path repository p).session p.entries
      ({ permissive := true } : Recorder)).result = .ok total := hok
  rw [replay_known h hknown, if_pos rfl]
  unfold dryRun
  simp only [hsession, String.append_assoc]
  exact ⟨_, _, rfl, rfl, rfl⟩

/-- What is not loaded ends a check and a dry run in the same way. -/
theorem replay_not_loaded {s : Setting} {path : String} {why : Plan.LoadError}
    (h : Plan.load s.files s.directory path = .error why) (repository : Option String)
    (dry : Bool) :
    s.check path = ({}, some (.load why)) ∧ s.replay path repository dry = s.check path := by
  unfold replay check
  rw [h]
  exact ⟨rfl, rfl⟩

end Setting

theorem answer_command {s : Setting} {args : List String} {c : Command}
    (h : Request.parse args = some (.command c)) :
    answer s args = (s.run c).1.answer s.log (s.run c).2 := by
  unfold answer; rw [h]

end Backdate
