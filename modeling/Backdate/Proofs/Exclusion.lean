import Backdate.Proofs.BranchDiscipline

/-!
# Excluded paths

A change that stages everything takes the excluded paths out of the index one by
one, stops at the first that git will not take out, and commits all the same. So
the paths it withholds from its commit are a **first part** of the excluded ones:
all of them if nothing failed, none of them if the staging failed
(`withheld_iff`).
-/

namespace Backdate

/-- The path that a process took out of the index, if it did. -/
def Process.unstages (p : Process) : Option String :=
  if p.call.command = "reset" ∧ p.reply.succeeded = true then p.call.args.getLast? else none

theorem Process.unstages_reset {path : String} {reply : Reply} (h : reply.succeeded = true) :
    Process.unstages ⟨.reset path, reply⟩ = some path := by
  simp [unstages, Call.command, Call.reset, h]

theorem Process.unstages_eq_none {p : Process} (h : p.call.command ≠ "reset") :
    p.unstages = none := by
  unfold unstages; rw [if_neg fun hp => h hp.1]

theorem Outcome.describe_toList_eq_nil (o : Outcome) :
    o.describe.toList = [] ↔ o.isSuccess = true := by
  rw [← List.length_eq_zero_iff, length_describe_toList]
  cases o.isSuccess <;> simp

namespace Git

variable {r : Replayer} {e : Event} {g : Git}

/-- Every path was taken out of the index, between the staging of everything and the commit. -/
def Withheld (paths : List String) (ps : List Process) : Prop :=
  ∀ path ∈ paths, ∃ before staged between unstaged later committed after,
    ps = before ++ staged :: (between ++ unstaged :: (later ++ committed :: after)) ∧
      staged.call = .addAll ∧ (unstaged.call = .reset path ∧ unstaged.reply.succeeded = true) ∧
      committed.call.command = "commit"

/-! ## Where taking out stops -/

/-- **The paths taken out are a first part**, and the outcome tells whether they are all. -/
theorem Unstaging.stops {paths : List String} {ps : List Process} {o : Outcome}
    (h : Unstaging g paths ps (.ok o)) :
    ∃ rest, paths = ps.filterMap Process.unstages ++ rest ∧ (o.isSuccess = true ↔ rest = []) ∧
      ∀ path more, rest = path :: more →
        ∃ reply, (⟨.reset path, reply⟩ : Process) ∈ ps ∧ reply.succeeded = false := by
  generalize hres : (.ok o : Except Fault Outcome) = res at h
  induction h with
  | done =>
    cases hres
    exact ⟨[], rfl, by simp [Outcome.isSuccess], fun _ _ heq => by cases heq⟩
  | @next path paths reply ps res hok _ ih =>
    obtain ⟨rest, hpaths, hall, hstop⟩ := ih hres
    refine ⟨rest, ?_, hall, fun path more heq => ?_⟩
    · rw [List.filterMap_cons_some (Process.unstages_reset hok), List.cons_append, ← hpaths]
    · obtain ⟨failed, hmem, hno⟩ := hstop path more heq
      exact ⟨failed, List.mem_cons_of_mem _ hmem, hno⟩
  | @stuck path paths reply hno =>
    cases hres
    refine ⟨path :: paths, ?_, by simp [Outcome.isSuccess], fun _ _ heq => ?_⟩
    · have hnone : Process.unstages ⟨.reset path, reply⟩ = none := by simp [Process.unstages, hno]
      rw [List.filterMap_cons_none hnone]; rfl
    · cases heq
      exact ⟨reply, List.mem_singleton.2 rfl, hno⟩
  | fault _ => cases hres

/-- Staging everything begins with the staging, and takes nothing out if that fails. -/
theorem StagingAll.stops {excluded : List String} {ps : List Process} {o : Outcome}
    (h : StagingAll g excluded ps (.ok o)) :
    ∃ added resets rest, ps = ⟨.addAll, added⟩ :: resets ∧
      (∀ p ∈ resets, p.call ∈ excluded.map .reset) ∧
      excluded = resets.filterMap Process.unstages ++ rest ∧
      (o.isSuccess = true ↔ added.succeeded = true ∧ rest = []) ∧
      (added.succeeded = false → resets = []) ∧
      ∀ path more, rest = path :: more → added.succeeded = false ∨
        ∃ reply, (⟨.reset path, reply⟩ : Process) ∈ resets ∧ reply.succeeded = false := by
  generalize hres : (.ok o : Except Fault Outcome) = res at h
  cases h with
  | @staged added resets _ hok hrest =>
    subst hres
    obtain ⟨rest, hpaths, hall, hstop⟩ := hrest.stops
    refine ⟨added, resets, rest, rfl, hrest.within.1, hpaths, ?_, ?_, fun path more heq => ?_⟩
    · rw [hall, hok]; simp
    · intro hno; rw [hok] at hno; cases hno
    · exact .inr (hstop path more heq)
  | @refused added hno =>
    cases hres
    refine ⟨added, [], excluded, rfl, by simp, rfl, ?_, fun _ => rfl, fun _ _ _ => .inl hno⟩
    rw [hno]; simp [Outcome.isSuccess]
  | fault _ => cases hres

/-! ## What the commit is spared -/

theorem does_performAll_one {op : Operation} {g' : Git} {ps : List Process} {warnings : List String}
    (h : Does (Operation.performAll [op]) g ps (.ok warnings) g') :
    ∃ o g₁, Does op.perform g ps (.ok o) g₁ ∧ warnings = o.describe.toList := by
  rcases does_bind h (logs_perform op) (fun _ => logs_bind (logs_performAll []) fun _ =>
      logs_pure _) with ⟨_, -, heq⟩ | ⟨o, qs, g₁, rs, ho, hrs, rfl⟩
  · cases heq
  · simp only [Operation.performAll, pure_bind, List.append_nil] at hrs
    obtain ⟨rfl, heq⟩ := does_pure hrs
    cases heq
    rw [List.append_nil]
    exact ⟨o, g₁, ho, rfl⟩

/-- Where the processes of a change are known, what it withheld is what it took out. -/
theorem withheld_append {paths : List String} {sw resets rest : List Process} {added : Reply}
    {committed : Process} (hcommit : committed.call.command = "commit")
    (hresets : ∀ p ∈ resets, ∃ path, p.call = .reset path)
    (hothers : ∀ p ∈ sw ++ rest, p.call.command ≠ "reset") :
    Withheld paths (sw ++ ((⟨.addAll, added⟩ :: resets) ++ committed :: rest)) ↔
      ∀ path ∈ paths, path ∈ resets.filterMap Process.unstages := by
  constructor
  · intro h path hpath
    obtain ⟨before, staged, between, unstaged, later, committed', after, hps, -, hreset, -⟩ :=
      h path hpath
    have hmem : unstaged ∈ sw ++ ((⟨.addAll, added⟩ :: resets) ++ committed :: rest) := by
      rw [hps]; simp
    have hcommand : unstaged.call.command = "reset" := by rw [hreset.1]; rfl
    -- of all the processes, only the resets are resets
    have hin : unstaged ∈ resets := by
      simp only [List.mem_append, List.mem_cons] at hmem
      rcases hmem with hmem | ((rfl | hmem) | (rfl | hmem))
      · exact absurd hcommand (hothers _ (List.mem_append_left _ hmem))
      · exact absurd hcommand (by simp [Call.command, Call.addAll])
      · exact hmem
      · rw [hcommit] at hcommand; exact absurd hcommand (by decide)
      · exact absurd hcommand (hothers _ (List.mem_append_right _ hmem))
    refine List.mem_filterMap.2 ⟨unstaged, hin, ?_⟩
    rcases unstaged with ⟨call, reply⟩
    obtain ⟨rfl, hok⟩ := hreset
    exact Process.unstages_reset hok
  · intro h path hpath
    obtain ⟨⟨call, reply⟩, hmem, hpath⟩ := List.mem_filterMap.1 (h path hpath)
    obtain ⟨other, rfl⟩ := hresets _ hmem
    have hok : reply.succeeded = true := by
      by_cases hok : reply.succeeded = true
      · exact hok
      · simp [Process.unstages, hok] at hpath
    rw [Process.unstages_reset hok] at hpath
    cases hpath
    obtain ⟨between, later, rfl⟩ := List.append_of_mem hmem
    exact ⟨sw, ⟨.addAll, added⟩, between, ⟨.reset path, reply⟩, later, committed, rest, by simp, rfl,
      ⟨rfl, hok⟩, hcommit⟩

/-- The processes of a change that staged everything and came to its commit. -/
theorem everything_committed {message : String} (he : e.action = .change message .everything)
    (hc : ∃ p ∈ processes (r.episode e g), p.call.command = "commit") :
    ∃ report added sw resets committed rest,
      (r.episode e g).result = .ok report ∧
      processes (r.episode e g) = sw ++ ((⟨.addAll, added⟩ :: resets) ++ [committed]) ∧
      committed.call.command = "commit" ∧ (∀ p ∈ sw, p.call.command ≠ "reset") ∧
      (∀ p ∈ resets, p.call ∈ r.excluded.map .reset) ∧
      r.excluded = resets.filterMap Process.unstages ++ rest ∧
      (report.warnings = [] ↔ added.succeeded = true ∧ rest = []) ∧
      (added.succeeded = false → resets = []) ∧
      ∀ path more, rest = path :: more → added.succeeded = false ∨
        ∃ reply, (⟨.reset path, reply⟩ : Process) ∈ resets ∧ reply.succeeded = false := by
  obtain ⟨p, hp, hcommand⟩ := hc
  have hwrites : p.call.writesHistory = true := by simp [Call.writesHistory, hcommand]
  obtain ⟨m, sw, qs, ws, warnings, o, g₁, g₂, g', hps, hres, hs, hq, hw⟩ :=
    (course_episode r e g).of_writes hp hwrites
  have hprep : r.preparations e = [.stageAllExcept r.excluded] := by
    unfold Replayer.preparations; rw [he]
  have hwriting : e.writing (r.stamp e.author m) = .commit message (r.stamp e.author m) true := by
    unfold Event.writing; rw [he]
  rw [hprep] at hq
  rw [hwriting] at hw
  obtain ⟨staged, g₃, hstaged, rfl⟩ := does_performAll_one hq
  obtain ⟨added, resets, rest, rfl, hcalls, hexcluded, hall, hrefused, hstop⟩ :=
    (does_stageAllExcept hstaged).stops
  obtain ⟨reply, rfl, -⟩ := does_run_ok hw
  refine ⟨_, added, sw, resets, _, rest, hres, hps, rfl, fun p hp heq => ?_, hcalls, hexcluded, ?_,
    hrefused, hstop⟩
  · exact ((does_switch hs).calls p hp).2 (by rw [heq]; simp)
  · exact (Outcome.describe_toList_eq_nil staged).trans hall

/-- **What a commit of everything withholds.** Let a change that stages everything come to its
commit. The excluded paths are those it took out, in order, and a rest that is empty if and only
if nothing failed after the staging; the first of the rest is the one that git would not take out.
It withheld all the excluded paths if and only if each of the rest is also among those it took
out, so without repetitions only if it warns of nothing. -/
theorem withheld_iff (r : Replayer) (e : Event) (g : Git) {message : String}
    (he : e.action = .change message .everything)
    (hc : ∃ p ∈ processes (r.episode e g), p.call.command = "commit") :
    ∃ report added rest,
      (r.episode e g).result = .ok report ∧
      (⟨.addAll, added⟩ : Process) ∈ processes (r.episode e g) ∧
      r.excluded = (processes (r.episode e g)).filterMap Process.unstages ++ rest ∧
      (report.warnings = [] ↔ added.succeeded = true ∧ rest = []) ∧
      (∀ path more, rest = path :: more → added.succeeded = false ∨
        ∃ reply, (⟨.reset path, reply⟩ : Process) ∈ processes (r.episode e g) ∧
          reply.succeeded = false) ∧
      (Withheld r.excluded (processes (r.episode e g)) ↔
        ∀ path ∈ rest, path ∈ (processes (r.episode e g)).filterMap Process.unstages) ∧
      (r.excluded.Nodup → (Withheld r.excluded (processes (r.episode e g)) ↔
        r.excluded = [] ∨ report.warnings = [])) := by
  obtain ⟨report, added, sw, resets, committed, rest, hres, hps, hcommit, hsw, hcalls, hexcluded,
    hwarn, hrefused, hstop⟩ := everything_committed he hc
  have hresets : ∀ p ∈ resets, ∃ path, p.call = .reset path := fun p hp => by
    obtain ⟨path, -, heq⟩ := List.mem_map.1 (hcalls p hp)
    exact ⟨path, heq.symm⟩
  -- only the resets take anything out
  have htaken : (processes (r.episode e g)).filterMap Process.unstages =
      resets.filterMap Process.unstages := by
    have hquiet : sw.filterMap Process.unstages = [] :=
      List.filterMap_eq_nil_iff.2 fun p hp => Process.unstages_eq_none (hsw p hp)
    have hadd : Process.unstages ⟨.addAll, added⟩ = none :=
      Process.unstages_eq_none (by simp [Call.command, Call.addAll])
    have hlast : committed.unstages = none := Process.unstages_eq_none (by rw [hcommit]; decide)
    rw [hps, List.filterMap_append, List.filterMap_append, hquiet, List.filterMap_cons_none hadd,
      List.filterMap_cons_none hlast]
    simp
  have hmem : ∀ p ∈ ⟨.addAll, added⟩ :: resets, p ∈ processes (r.episode e g) := fun p hp => by
    rw [hps]; exact List.mem_append_right _ (List.mem_append_left _ hp)
  have hwithheld : Withheld r.excluded (processes (r.episode e g)) ↔
      ∀ path ∈ rest, path ∈ resets.filterMap Process.unstages := by
    rw [hps, withheld_append hcommit hresets (by simpa using hsw)]
    constructor
    · intro h path hpath
      exact h path (by rw [hexcluded]; exact List.mem_append_right _ hpath)
    · intro h path hpath
      rw [hexcluded] at hpath
      rcases List.mem_append.1 hpath with hpath | hpath
      · exact hpath
      · exact h path hpath
  rw [htaken]
  refine ⟨report, added, rest, hres, hmem _ List.mem_cons_self, hexcluded, hwarn, ?_, hwithheld, ?_⟩
  · intro path more heq
    rcases hstop path more heq with hno | ⟨reply, hreply, hno⟩
    · exact .inl hno
    · exact .inr ⟨reply, hmem _ (List.mem_cons_of_mem _ hreply), hno⟩
  · intro hnodup
    rw [hwithheld, hwarn]
    rw [hexcluded] at hnodup ⊢
    cases rest with
    | nil =>
      refine iff_of_true (by simp) ?_
      by_cases hok : added.succeeded = true
      · exact .inr ⟨hok, rfl⟩
      · left; rw [hrefused (Bool.eq_false_iff.2 hok)]; rfl
    | cons path more =>
      -- the path that git would not take out would have to be there twice
      refine iff_of_false (fun h => ?_) (by simp)
      have htwice := h path List.mem_cons_self
      exact (List.nodup_append.1 hnodup).2.2 path htwice path List.mem_cons_self rfl

/-- Git takes nothing out, and the commit follows: the excluded path is not withheld. -/
theorem history_not_withheld :
    let r : Replayer :=
      ⟨⟨⟨2025, 10, 18, by decide⟩, ⟨9, 0, 0, by decide, by decide, by decide⟩⟩,
        ⟨⟨"Ada", "a@x"⟩, ⟨"Grace", "g@x"⟩⟩, ["history.toml"]⟩
    let e : Event := ⟨"main", .first, ⟨0, 9, 0⟩, .change "start" .everything⟩
    let g : Git := { script := [{}, {}, { exit := 1 }, {}] }
    (∃ p ∈ processes (r.episode e g), p.call.command = "commit" ∧ p.reply.succeeded = true) ∧
      ¬ Withheld r.excluded (processes (r.episode e g)) := by
  intro r e g
  have hcommit : ∃ p ∈ processes (r.episode e g),
      p.call.command = "commit" ∧ p.reply.succeeded = true := by decide +kernel
  have htaken : (processes (r.episode e g)).filterMap Process.unstages = [] := by decide +kernel
  refine ⟨hcommit, fun h => ?_⟩
  obtain ⟨p, hp, hcommand, -⟩ := hcommit
  obtain ⟨_, _, rest, -, -, hrest, -, -, hiff, -⟩ := withheld_iff r e g rfl ⟨p, hp, hcommand⟩
  rw [htaken, List.nil_append] at hrest
  have hmem : "history.toml" ∈ rest := hrest ▸ List.mem_singleton.2 rfl
  have hin := hiff.1 h "history.toml" hmem
  rw [htaken] at hin
  exact absurd hin List.not_mem_nil

end Git

end Backdate
