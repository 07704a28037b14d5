import Backdate.Proofs.Processes

/-!
# Conversations with git

Which processes each operation runs, and what it makes of their replies.

* `Switching`, `Unstaging`, `Merging`: the ways that going to a branch, taking
  paths out of the index, and merging can go;
* `does_perform`: the calls that an operation may make, and why it may fault.
-/

namespace Backdate

/-- Whether a reply tells of a conflict. -/
def Reply.inConflict (r : Reply) : Bool := Git.isConflict r.output || Git.isConflict r.complaint

namespace Git

/-! ## Going to a branch -/

/-- **The four ways to go to a branch**: it is there, it is there and git will not go, it is
created (or not), or no process starts at all. -/
inductive Switching (g : Git) (branch : String) : List Process → Except Fault Outcome → Prop
  | there {reply : Reply} (h : reply.succeeded = true) :
    Switching g branch [⟨.checkout branch, reply⟩] (.ok .success)
  | stuck {reply known : Reply} (h : reply.succeeded = false) (hk : known.succeeded = true) :
    Switching g branch [⟨.checkout branch, reply⟩, ⟨.verify branch, known⟩]
      (.ok (.failure "checkout" reply.detail))
  | created {reply known made : Reply} (h : reply.succeeded = false)
      (hk : known.succeeded = false) :
    Switching g branch
      [⟨.checkout branch, reply⟩, ⟨.verify branch, known⟩, ⟨.create branch, made⟩]
      (.ok (made.outcome "checkout -b"))
  | fault {why : Fault} (h : NotStarted g (.checkout branch) why) :
    Switching g branch [] (.error why)

theorem logs_branchExists (branch : String) : Logs (branchExists branch) :=
  logs_bind (logs_start _) fun _ => logs_pure _

theorem does_branchExists_ok {branch : String} {g g' : Git} {ps : List Process} {known : Bool}
    (h : Does (branchExists branch) g ps (.ok known) g') :
    ∃ reply, ps = [⟨.verify branch, reply⟩] ∧ known = reply.succeeded := by
  rcases does_bind h (logs_start _) (fun _ => logs_pure _) with
    ⟨why, hs, heq⟩ | ⟨reply, qs, g₁, rs, hs, hrs, rfl⟩
  · cases heq
  · cases does_start_ok hs
    obtain ⟨rfl, heq⟩ := does_pure hrs
    exact ⟨reply, rfl, Except.ok.inj heq⟩

theorem does_branchExists_error {branch : String} {g g' : Git} {ps : List Process} {why : Fault}
    (h : Does (branchExists branch) g ps (.error why) g') : NotStarted g (.verify branch) why := by
  rcases does_bind h (logs_start _) (fun _ => logs_pure _) with
    ⟨why', hs, heq⟩ | ⟨reply, qs, g₁, rs, -, hrs, -⟩
  · cases heq; exact (does_start_error hs).2
  · cases (does_pure hrs).2

theorem logs_switch (branch : String) : Logs (switch branch) := by
  refine logs_bind (logs_run _ _) fun outcome => logs_ite (logs_pure _) ?_
  refine logs_bind (logs_branchExists branch) fun known => logs_ite (logs_pure _) ?_
  exact logs_bind (logs_log _) fun _ => logs_run _ _

theorem does_switch {branch : String} {g g' : Git} {ps : List Process}
    {res : Except Fault Outcome} (h : Does (switch branch) g ps res g') :
    Switching g branch ps res := by
  have hmake : ∀ (known : Bool) (outcome : Outcome), Logs (if known then pure outcome else do
      modify (log ("branch " ++ branch ++ " missing, creating it"))
      run "checkout -b" (.create branch)) := fun _ _ =>
    logs_ite (logs_pure _) (logs_bind (logs_log _) fun _ => logs_run _ _)
  rcases does_bind h (logs_run _ _) (fun outcome => logs_ite (logs_pure _)
      (logs_bind (logs_branchExists branch) fun known => hmake known outcome)) with
    ⟨why, hr, rfl⟩ | ⟨outcome, qs, g₁, rs, hr, hrs, rfl⟩
  · obtain ⟨rfl, hwhy⟩ := does_run_error hr
    exact .fault hwhy
  obtain ⟨reply, rfl, rfl⟩ := does_run_ok hr
  -- the first process ran, so the others for this branch start as well
  obtain ⟨hran, hb⟩ := hr.ran.started _ List.mem_cons_self
  have hnul : Text.hasNul branch = false := (Call.hasNul_checkout branch).symm.trans hran
  have hb₁ : g₁.blocked = none := hr.ran.blocked.trans hb
  rw [Reply.isSuccess_outcome] at hrs
  by_cases hok : reply.succeeded = true
  · rw [if_pos hok] at hrs
    obtain ⟨rfl, rfl⟩ := does_pure hrs
    rw [Reply.outcome, if_pos hok]; exact .there hok
  have hno : reply.succeeded = false := Bool.eq_false_iff.2 hok
  rw [if_neg hok] at hrs
  rcases does_bind hrs (logs_branchExists branch) (fun known => hmake known _) with
    ⟨why, hv, rfl⟩ | ⟨known, vs, g₂, ms, hv, hms, rfl⟩
  · exact absurd (does_branchExists_error hv)
      (not_notStarted ((Call.hasNul_verify branch).trans hnul) hb₁)
  obtain ⟨answer, rfl, rfl⟩ := does_branchExists_ok hv
  have hb₂ : g₂.blocked = none := hv.ran.blocked.trans hb₁
  by_cases hk : answer.succeeded = true
  · rw [if_pos hk] at hms
    obtain ⟨rfl, rfl⟩ := does_pure hms
    rw [Reply.outcome, if_neg hok]; exact .stuck hno hk
  rw [if_neg hk] at hms
  rcases does_run (does_log_bind hms (logs_run _ _)) with ⟨made, rfl, rfl⟩ | ⟨why, -, -, hwhy⟩
  · exact .created hno (Bool.eq_false_iff.2 hk)
  · exact absurd hwhy (not_notStarted ((Call.hasNul_create branch).trans hnul) hb₂)

/-! ## Staging -/

/-- The line for a path that could not be staged. -/
def addLine (path : String) : Outcome → List String
  | .success => []
  | .failure _ detail => [path ++ ": " ++ Text.trimmed detail]

theorem isEmpty_addLine_append (path : String) (o : Outcome) (rest : List String) :
    (addLine path o ++ rest).isEmpty = (o.isSuccess && rest.isEmpty) := by
  cases o <;> rfl

theorem stageEach_cons (path : String) (paths : List String) :
    stageEach (path :: paths) = do
      let outcome ← run "add" (.add path)
      let rest ← stageEach paths
      return addLine path outcome ++ rest := by
  rw [stageEach]
  congr 1; funext outcome
  congr 1; funext rest
  cases outcome <;> rfl

theorem logs_stageEach (paths : List String) : Logs (stageEach paths) := by
  induction paths with
  | nil => exact logs_pure _
  | cons path paths ih =>
    rw [stageEach_cons]
    exact logs_bind (logs_run _ _) fun _ => logs_bind ih fun _ => logs_pure _

/-- Every path is asked for, whatever became of those before it. -/
theorem does_stageEach_ok {paths failures : List String} {g g' : Git} {ps : List Process}
    (h : Does (stageEach paths) g ps (.ok failures) g') :
    ps.map (·.call) = paths.map .add ∧ failures.isEmpty = ps.all (·.reply.succeeded) := by
  induction paths generalizing g g' ps failures with
  | nil =>
    obtain ⟨rfl, heq⟩ := does_pure h
    cases heq; exact ⟨rfl, rfl⟩
  | cons path paths ih =>
    rw [stageEach_cons] at h
    rcases does_bind h (logs_run _ _) (fun _ => logs_bind (logs_stageEach paths) fun _ =>
        logs_pure _) with ⟨why, -, heq⟩ | ⟨outcome, qs, g₁, rs, hr, hrs, rfl⟩
    · cases heq
    obtain ⟨reply, rfl, rfl⟩ := does_run_ok hr
    rcases does_bind hrs (logs_stageEach paths) (fun _ => logs_pure _) with
      ⟨why, -, heq⟩ | ⟨rest, ts, g₂, us, hts, hus, rfl⟩
    · cases heq
    obtain ⟨rfl, heq⟩ := does_pure hus
    cases heq
    obtain ⟨hcalls, hall⟩ := ih hts
    rw [List.append_nil]
    refine ⟨by rw [List.map_append, hcalls]; rfl, ?_⟩
    rw [isEmpty_addLine_append, reply.isSuccess_outcome, hall]; rfl

theorem does_stageEach_error {paths : List String} {g g' : Git} {ps : List Process} {why : Fault}
    (h : Does (stageEach paths) g ps (.error why) g') :
    (∀ p ∈ ps, p.call ∈ paths.map .add) ∧ ∃ c ∈ paths.map .add, NotStarted g c why := by
  induction paths generalizing g g' ps with
  | nil => cases (does_pure h).2
  | cons path paths ih =>
    rw [stageEach_cons] at h
    rw [List.map_cons]
    rcases does_bind h (logs_run _ _) (fun _ => logs_bind (logs_stageEach paths) fun _ =>
        logs_pure _) with ⟨why, hr, heq⟩ | ⟨outcome, qs, g₁, rs, hr, hrs, rfl⟩
    · cases heq
      obtain ⟨rfl, hwhy⟩ := does_run_error hr
      exact ⟨by simp, _, List.mem_cons_self, hwhy⟩
    obtain ⟨reply, rfl, rfl⟩ := does_run_ok hr
    rcases does_bind hrs (logs_stageEach paths) (fun _ => logs_pure _) with
      ⟨why, hts, heq⟩ | ⟨rest, ts, g₂, us, hts, hus, rfl⟩
    · cases heq
      obtain ⟨hcalls, c, hc, hwhy⟩ := ih hts
      refine ⟨?_, c, List.mem_cons_of_mem _ hc, hwhy.of_blocked hr.ran.blocked⟩
      intro p hp
      rcases List.mem_cons.1 hp with rfl | hp
      · exact List.mem_cons_self
      · exact List.mem_cons_of_mem _ (hcalls p hp)
    · cases (does_pure hus).2

/-- **Taking paths out of the index**: one reset after the other, up to the first that fails. -/
inductive Unstaging (g : Git) : List String → List Process → Except Fault Outcome → Prop
  | done : Unstaging g [] [] (.ok .success)
  | next {path : String} {paths : List String} {reply : Reply} {ps : List Process}
      {res : Except Fault Outcome} (h : reply.succeeded = true) (hrest : Unstaging g paths ps res) :
    Unstaging g (path :: paths) (⟨.reset path, reply⟩ :: ps) res
  | stuck {path : String} {paths : List String} {reply : Reply} (h : reply.succeeded = false) :
    Unstaging g (path :: paths) [⟨.reset path, reply⟩] (.ok (.failure "reset" reply.detail))
  | fault {path : String} {paths : List String} {why : Fault}
      (h : NotStarted g (.reset path) why) : Unstaging g (path :: paths) [] (.error why)

theorem Unstaging.of_blocked {g g₁ : Git} (hb : g₁.blocked = g.blocked) {paths : List String}
    {ps : List Process} {res : Except Fault Outcome} (h : Unstaging g₁ paths ps res) :
    Unstaging g paths ps res := by
  induction h with
  | done => exact .done
  | next h _ ih => exact .next h ih
  | stuck h => exact .stuck h
  | fault h => exact .fault (h.of_blocked hb)

theorem logs_unstageEach (paths : List String) : Logs (unstageEach paths) := by
  induction paths with
  | nil => exact logs_pure _
  | cons path paths ih => exact logs_bind (logs_run _ _) fun _ => logs_ite ih (logs_pure _)

theorem does_unstageEach {paths : List String} {g g' : Git} {ps : List Process}
    {res : Except Fault Outcome} (h : Does (unstageEach paths) g ps res g') :
    Unstaging g paths ps res := by
  induction paths generalizing g ps with
  | nil =>
    obtain ⟨rfl, rfl⟩ := does_pure h
    exact .done
  | cons path paths ih =>
    rcases does_bind h (logs_run _ _) (fun _ => logs_ite (logs_unstageEach paths) (logs_pure _)) with
      ⟨why, hr, rfl⟩ | ⟨outcome, qs, g₁, rs, hr, hrs, rfl⟩
    · obtain ⟨rfl, hwhy⟩ := does_run_error hr
      exact .fault hwhy
    obtain ⟨reply, rfl, rfl⟩ := does_run_ok hr
    rw [Reply.isSuccess_outcome] at hrs
    by_cases hok : reply.succeeded = true
    · rw [if_pos hok] at hrs
      exact .next hok ((ih hrs).of_blocked hr.ran.blocked)
    · rw [if_neg hok] at hrs
      obtain ⟨rfl, rfl⟩ := does_pure hrs
      rw [Reply.outcome, if_neg hok]
      exact .stuck (Bool.eq_false_iff.2 hok)

/-- Staging everything: nothing is taken out of the index if the staging itself fails. -/
inductive StagingAll (g : Git) (excluded : List String) :
    List Process → Except Fault Outcome → Prop
  | staged {reply : Reply} {ps : List Process} {res : Except Fault Outcome}
      (h : reply.succeeded = true) (hrest : Unstaging g excluded ps res) :
    StagingAll g excluded (⟨.addAll, reply⟩ :: ps) res
  | refused {reply : Reply} (h : reply.succeeded = false) :
    StagingAll g excluded [⟨.addAll, reply⟩] (.ok (.failure "add" reply.detail))
  | fault {why : Fault} (h : NotStarted g .addAll why) : StagingAll g excluded [] (.error why)

theorem logs_stageAllExcept (excluded : List String) : Logs (stageAllExcept excluded) :=
  logs_bind (logs_run _ _) fun _ => logs_ite (logs_unstageEach excluded) (logs_pure _)

theorem does_stageAllExcept {excluded : List String} {g g' : Git} {ps : List Process}
    {res : Except Fault Outcome} (h : Does (stageAllExcept excluded) g ps res g') :
    StagingAll g excluded ps res := by
  rcases does_bind h (logs_run _ _) (fun _ => logs_ite (logs_unstageEach excluded) (logs_pure _)) with
    ⟨why, hr, rfl⟩ | ⟨outcome, qs, g₁, rs, hr, hrs, rfl⟩
  · obtain ⟨rfl, hwhy⟩ := does_run_error hr
    exact .fault hwhy
  obtain ⟨reply, rfl, rfl⟩ := does_run_ok hr
  rw [Reply.isSuccess_outcome] at hrs
  by_cases hok : reply.succeeded = true
  · rw [if_pos hok] at hrs
    exact .staged hok ((does_unstageEach hrs).of_blocked hr.ran.blocked)
  · rw [if_neg hok] at hrs
    obtain ⟨rfl, rfl⟩ := does_pure hrs
    rw [Reply.outcome, if_neg hok]
    exact .refused (Bool.eq_false_iff.2 hok)

theorem logs_stage (paths : List String) : Logs (stage paths) :=
  logs_bind (logs_stageEach paths) fun _ => logs_ite (logs_pure _) (logs_pure _)

theorem does_stage_ok {paths : List String} {g g' : Git} {ps : List Process} {o : Outcome}
    (h : Does (stage paths) g ps (.ok o) g') :
    ps.map (·.call) = paths.map .add ∧ o.isSuccess = ps.all (·.reply.succeeded) := by
  rcases does_bind h (logs_stageEach paths) (fun _ => logs_ite (logs_pure _) (logs_pure _)) with
    ⟨why, -, heq⟩ | ⟨failures, qs, g₁, rs, hq, hrs, rfl⟩
  · cases heq
  obtain ⟨hcalls, hall⟩ := does_stageEach_ok hq
  cases hempty : failures.isEmpty <;> rw [hempty] at hrs hall
  · obtain ⟨rfl, heq⟩ := does_pure hrs
    cases heq
    rw [List.append_nil]; exact ⟨hcalls, hall⟩
  · obtain ⟨rfl, heq⟩ := does_pure hrs
    cases heq
    rw [List.append_nil]; exact ⟨hcalls, hall⟩

theorem does_stage_error {paths : List String} {g g' : Git} {ps : List Process} {why : Fault}
    (h : Does (stage paths) g ps (.error why) g') :
    (∀ p ∈ ps, p.call ∈ paths.map .add) ∧ ∃ c ∈ paths.map .add, NotStarted g c why := by
  rcases does_bind h (logs_stageEach paths) (fun _ => logs_ite (logs_pure _) (logs_pure _)) with
    ⟨why, hq, heq⟩ | ⟨failures, qs, g₁, rs, hq, hrs, rfl⟩
  · cases heq; exact does_stageEach_error hq
  · cases hempty : failures.isEmpty <;> rw [hempty] at hrs
    · cases (does_pure hrs).2
    · cases (does_pure hrs).2

/-! ## Merging -/

/-- **The ways a merge can go.** Only a conflict is undone, and how that goes does not matter. -/
inductive Merging (g : Git) (source message : String) (stamp : Stamp) :
    List Process → Except Fault Outcome → Prop
  | merged {reply : Reply} (h : reply.succeeded = true) :
    Merging g source message stamp [⟨.merge source message stamp, reply⟩] (.ok .success)
  | refused {reply : Reply} (h : reply.succeeded = false) (hc : reply.inConflict = false) :
    Merging g source message stamp [⟨.merge source message stamp, reply⟩]
      (.ok (.failure "merge" reply.detail))
  | undone {reply undone : Reply} (h : reply.succeeded = false) (hc : reply.inConflict = true) :
    Merging g source message stamp [⟨.merge source message stamp, reply⟩, ⟨.abort, undone⟩]
      (.ok (.failure "merge" (Text.joinLines (conflicts reply.output))))
  | fault {why : Fault} (h : NotStarted g (.merge source message stamp) why) :
    Merging g source message stamp [] (.error why)

/-- Undoing a merge: one process, and perhaps a note. -/
def undo (failure : Outcome) : Act Git Outcome := do
  let undone ← run "merge --abort" .abort
  if let some line := undone.describe then modify (log line)
  return failure

theorem merge_eq (source message : String) (stamp : Stamp) :
    merge source message stamp = do
      let reply ← start (.merge source message stamp)
      if reply.succeeded then return .success
      else if reply.inConflict then
        undo (.failure "merge" (Text.joinLines (conflicts reply.output)))
      else return .failure "merge" reply.detail := rfl

theorem logs_undo (failure : Outcome) : Logs (undo failure) := by
  refine logs_bind (logs_run _ _) fun undone => ?_
  cases undone.describe with
  | none => exact logs_pure _
  | some line => exact logs_bind (logs_log _) fun _ => logs_pure _

theorem does_undo {failure : Outcome} {g g' : Git} {ps : List Process}
    {res : Except Fault Outcome} (hb : g.blocked = none) (h : Does (undo failure) g ps res g') :
    ∃ reply, ps = [⟨.abort, reply⟩] ∧ res = .ok failure := by
  rcases does_bind h (logs_run _ _) (fun undone => by
      cases undone.describe with
      | none => exact logs_pure _
      | some line => exact logs_bind (logs_log _) fun _ => logs_pure _) with
    ⟨why, hr, rfl⟩ | ⟨undone, qs, g₁, rs, hr, hrs, rfl⟩
  · exact absurd (does_run_error hr).2 (not_notStarted Call.hasNul_abort hb)
  obtain ⟨reply, rfl, rfl⟩ := does_run_ok hr
  cases hd : (reply.outcome "merge --abort").describe <;> rw [hd] at hrs
  · obtain ⟨rfl, rfl⟩ := does_pure hrs
    exact ⟨reply, rfl, rfl⟩
  · obtain ⟨rfl, rfl⟩ := does_pure (does_log_bind hrs (logs_pure _))
    exact ⟨reply, rfl, rfl⟩

theorem logs_merge (source message : String) (stamp : Stamp) :
    Logs (merge source message stamp) := by
  rw [merge_eq]
  exact logs_bind (logs_start _) fun _ =>
    logs_ite (logs_pure _) (logs_ite (logs_undo _) (logs_pure _))

theorem does_merge {source message : String} {stamp : Stamp} {g g' : Git} {ps : List Process}
    {res : Except Fault Outcome} (h : Does (merge source message stamp) g ps res g') :
    Merging g source message stamp ps res := by
  rw [merge_eq] at h
  rcases does_bind h (logs_start _) (fun _ =>
      logs_ite (logs_pure _) (logs_ite (logs_undo _) (logs_pure _))) with
    ⟨why, hr, rfl⟩ | ⟨reply, qs, g₁, rs, hr, hrs, rfl⟩
  · obtain ⟨rfl, hwhy⟩ := does_start_error hr
    exact .fault hwhy
  cases does_start_ok hr
  have hb : g₁.blocked = none :=
    hr.ran.blocked.trans (hr.ran.started _ List.mem_cons_self).2
  by_cases hok : reply.succeeded = true
  · rw [if_pos hok] at hrs
    obtain ⟨rfl, rfl⟩ := does_pure hrs
    exact .merged hok
  rw [if_neg hok] at hrs
  have hno : reply.succeeded = false := Bool.eq_false_iff.2 hok
  by_cases hc : reply.inConflict = true
  · rw [if_pos hc] at hrs
    obtain ⟨undone, rfl, rfl⟩ := does_undo hb hrs
    exact .undone hno hc
  · rw [if_neg hc] at hrs
    obtain ⟨rfl, rfl⟩ := does_pure hrs
    exact .refused hno (Bool.eq_false_iff.2 hc)

/-! ## Any operation -/

/-- The calls that an operation may make of git. -/
def calls : Operation → List Call
  | .switch branch => [.checkout branch, .verify branch, .create branch]
  | .stage paths => paths.map .add
  | .stageAllExcept excluded => .addAll :: excluded.map .reset
  | .remove path => [.remove path]
  | .commit message stamp allowEmpty => [.commit message stamp allowEmpty]
  | .merge source message stamp => [.merge source message stamp, .abort]
  | .tag name message stamp => [.tag name message stamp]

theorem logs_perform (op : Operation) : Logs (op.perform : Act Git Outcome) := by
  cases op with
  | switch branch => exact logs_switch branch
  | stage paths => exact logs_stage paths
  | stageAllExcept excluded => exact logs_stageAllExcept excluded
  | remove path => exact logs_run _ _
  | commit message stamp allowEmpty => exact logs_run _ _
  | merge source message stamp => exact logs_merge source message stamp
  | tag name message stamp => exact logs_run _ _

/-- A conversation keeps to some calls, and a fault is about one of them. -/
def Within {α : Type} (g : Git) (cs : List Call) (ps : List Process) (res : Except Fault α) : Prop :=
  (∀ p ∈ ps, p.call ∈ cs) ∧ ∀ why, res = .error why → ∃ c ∈ cs, NotStarted g c why

theorem within_ok {α : Type} {g : Git} {cs : List Call} {ps : List Process} {a : α}
    (h : ∀ p ∈ ps, p.call ∈ cs) : Within g cs ps (.ok a : Except Fault α) :=
  ⟨h, fun _ heq => by cases heq⟩

theorem within_fault {α : Type} {g : Git} {c : Call} {cs : List Call} {why : Fault} (hc : c ∈ cs)
    (h : NotStarted g c why) : Within g cs [] (.error why : Except Fault α) :=
  ⟨by simp, fun _ heq => by cases heq; exact ⟨c, hc, h⟩⟩

theorem Within.mono {α : Type} {g : Git} {cs ds : List Call} {ps : List Process}
    {res : Except Fault α} (h : Within g cs ps res) (hsub : ∀ c ∈ cs, c ∈ ds) :
    Within g ds ps res := by
  refine ⟨fun p hp => hsub _ (h.1 p hp), fun why heq => ?_⟩
  obtain ⟨c, hc, hnot⟩ := h.2 why heq
  exact ⟨c, hsub c hc, hnot⟩

theorem Within.error {α β : Type} {g : Git} {cs : List Call} {ps : List Process} {why : Fault}
    (h : Within g cs ps (.error why : Except Fault α)) :
    Within g cs ps (.error why : Except Fault β) :=
  ⟨h.1, fun _ heq => h.2 _ (by cases heq; rfl)⟩

/-- A conversation that went on after other processes. -/
theorem Within.after {α : Type} {g g₁ : Git} {cs : List Call} {ps qs : List Process}
    {res : Except Fault α} (hb : g₁.blocked = g.blocked) (hps : ∀ p ∈ ps, p.call ∈ cs)
    (h : Within g₁ cs qs res) : Within g cs (ps ++ qs) res := by
  refine ⟨fun p hp => ?_, fun why heq => ?_⟩
  · rcases List.mem_append.1 hp with hp | hp
    · exact hps p hp
    · exact h.1 p hp
  · obtain ⟨c, hc, hnot⟩ := h.2 why heq
    exact ⟨c, hc, hnot.of_blocked hb⟩

theorem within_run {step : String} {c : Call} {g g' : Git} {ps : List Process}
    {res : Except Fault Outcome} (h : Does (run step c) g ps res g') : Within g [c] ps res := by
  rcases does_run h with ⟨reply, rfl, rfl⟩ | ⟨why, rfl, rfl, hwhy⟩
  · exact within_ok (by simp)
  · exact within_fault List.mem_cons_self hwhy

theorem Unstaging.within {g : Git} {paths : List String} {ps : List Process}
    {res : Except Fault Outcome} (h : Unstaging g paths ps res) :
    Within g (paths.map .reset) ps res := by
  induction h with
  | done => exact within_ok (by simp)
  | @next path paths reply ps res _ _ ih =>
    have hfirst : ∀ p ∈ [(⟨.reset path, reply⟩ : Process)], p.call ∈ (path :: paths).map .reset := by
      simp
    exact Within.after rfl hfirst (ih.mono fun c hc => List.mem_cons_of_mem _ hc)
  | stuck _ => exact within_ok (by simp)
  | fault h => exact within_fault List.mem_cons_self h

theorem StagingAll.within {g : Git} {excluded : List String} {ps : List Process}
    {res : Except Fault Outcome} (h : StagingAll g excluded ps res) :
    Within g (.addAll :: excluded.map .reset) ps res := by
  cases h with
  | @staged reply ps _ _ hrest =>
    have hfirst : ∀ p ∈ [(⟨.addAll, reply⟩ : Process)], p.call ∈ .addAll :: excluded.map .reset := by
      simp
    exact Within.after rfl hfirst (hrest.within.mono fun c hc => List.mem_cons_of_mem _ hc)
  | refused _ => exact within_ok (by simp)
  | fault h => exact within_fault List.mem_cons_self h

theorem Switching.within {g : Git} {branch : String} {ps : List Process}
    {res : Except Fault Outcome} (h : Switching g branch ps res) :
    Within g [.checkout branch, .verify branch, .create branch] ps res := by
  cases h with
  | there _ => exact within_ok (by simp)
  | stuck _ _ => exact within_ok (by simp)
  | created _ _ => exact within_ok (by simp)
  | fault h => exact within_fault List.mem_cons_self h

theorem Merging.within {g : Git} {source message : String} {stamp : Stamp} {ps : List Process}
    {res : Except Fault Outcome} (h : Merging g source message stamp ps res) :
    Within g [.merge source message stamp, .abort] ps res := by
  cases h with
  | merged _ => exact within_ok (by simp)
  | refused _ _ => exact within_ok (by simp)
  | undone _ _ => exact within_ok (by simp)
  | fault h => exact within_fault List.mem_cons_self h

/-- **An operation keeps to its calls**, and faults only if one of them does not start. -/
theorem does_perform {op : Operation} {g g' : Git} {ps : List Process} {res : Except Fault Outcome}
    (h : Does op.perform g ps res g') : Within g (calls op) ps res := by
  cases op with
  | switch branch => exact (does_switch h).within
  | stage paths =>
    cases res with
    | error why =>
      obtain ⟨hcalls, hwhy⟩ := does_stage_error h
      exact ⟨hcalls, fun _ heq => by cases heq; exact hwhy⟩
    | ok o =>
      refine within_ok fun p hp => ?_
      have hcalls : ps.map (·.call) = paths.map .add := (does_stage_ok h).1
      rw [calls, ← hcalls]; exact List.mem_map_of_mem hp
  | stageAllExcept excluded => exact (does_stageAllExcept h).within
  | remove path => exact within_run h
  | commit message stamp allowEmpty => exact within_run h
  | merge source message stamp => exact (does_merge h).within
  | tag name message stamp => exact within_run h

end Git

end Backdate
