import Backdate.Proofs.Acceptance
import Backdate.Proofs.Handover

/-!
# Replays that run to their end

The check of a plan finds every event whose time has no moment, but it does not
look for NUL. So a replay of a checked plan on git, in a directory that can be
entered, ends in a fault for one reason only, and a plan is safe against every
reply of git if and only if its events hand over no NUL (`replay_completes_iff`).

* `Course.fault`: an event faults if its time has no moment, or if one of the
  calls of its operations does not start.
* `Course.smooth`: an event to which git agrees makes all of these calls.
-/

namespace Backdate

open Calendar

namespace Git

variable {r : Replayer} {e : Event} {g g' : Git}

/-! ## Faults -/

theorem mem_calls_operations {m : Moment} {op : Operation} {c : Call} (hop : op ∈ r.operations e m)
    (hc : c ∈ calls op) : c ∈ (r.operations e m).flatMap calls :=
  List.mem_flatMap.2 ⟨op, hop, hc⟩

/-- **Why an event faults**: its time has no moment, or one of its calls does not start. -/
theorem Course.fault {ps : List Process} {why : Fault} (h : Course r e g ps (.error why)) :
    (∃ u, r.anchor.resolve e.time = .error u ∧ why = .unresolved u) ∨
      ∃ m, r.anchor.resolve e.time = .ok m ∧
        ∃ c ∈ (r.operations e m).flatMap calls, NotStarted g c why := by
  cases h with
  | unresolved hm => exact .inl ⟨_, hm, rfl⟩
  | @lost m _ _ _ hm hs =>
    obtain ⟨c, hc, hwhy⟩ := (does_switch hs).within.2 _ rfl
    have hop : Operation.switch e.branch ∈ r.operations e m := List.mem_cons_self
    exact .inr ⟨m, hm, c, mem_calls_operations hop hc, hwhy⟩
  | @unprepared m _ _ _ _ _ hm hs hp =>
    obtain ⟨c, hc, hwhy⟩ := (does_performAll hp).2 _ rfl
    obtain ⟨op, hop, hc⟩ := List.mem_flatMap.1 hc
    refine .inr ⟨m, hm, c, mem_calls_operations ?_ hc, hwhy.of_blocked hs.ran.blocked⟩
    simp [Replayer.operations, hop]
  | @unwritten m _ _ _ _ _ _ _ hm hs hp hw =>
    obtain ⟨c, hc, hwhy⟩ := (does_perform hw).2 _ rfl
    refine .inr ⟨m, hm, c, mem_calls_operations ?_ hc, ?_⟩
    · simp [Replayer.operations]
    · exact hwhy.of_blocked (hp.ran.blocked.trans hs.ran.blocked)

/-! ## Smooth courses -/

theorem Unstaging.smooth {paths : List String} {ps : List Process} {res : Except Fault Outcome}
    (h : Unstaging g paths ps res) (hres : res.isOk = true)
    (hps : ∀ p ∈ ps, p.reply.succeeded = true) :
    ∀ path ∈ paths, ∃ p ∈ ps, p.call = .reset path := by
  induction h with
  | done => intro path hpath; exact absurd hpath List.not_mem_nil
  | next _ _ ih =>
    intro path hpath
    rcases List.mem_cons.1 hpath with rfl | hpath
    · exact ⟨_, List.mem_cons_self, rfl⟩
    · obtain ⟨p, hp, hcall⟩ := ih hres (fun p hp => hps p (List.mem_cons_of_mem _ hp)) path hpath
      exact ⟨p, List.mem_cons_of_mem _ hp, hcall⟩
  | stuck hno =>
    have hok := hps _ List.mem_cons_self
    rw [hno] at hok; cases hok
  | fault _ => cases hres

/-- A switch to which git agrees is one process. -/
theorem Switching.smooth {branch : String} {ps : List Process} {res : Except Fault Outcome}
    (h : Switching g branch ps res) (hres : res.isOk = true)
    (hps : ∀ p ∈ ps, p.reply.succeeded = true) :
    res = .ok .success ∧ ∃ p ∈ ps, p.call = .checkout branch := by
  cases h with
  | there _ => exact ⟨rfl, _, List.mem_cons_self, rfl⟩
  | stuck hno _ => have hok := hps _ List.mem_cons_self; rw [hno] at hok; cases hok
  | created hno _ => have hok := hps _ List.mem_cons_self; rw [hno] at hok; cases hok
  | fault _ => cases hres

/-- An operation to which git agrees has no NUL in any of its calls. -/
theorem smooth_perform {op : Operation} {ps : List Process} {o : Outcome}
    (h : Does op.perform g ps (.ok o) g') (hps : ∀ p ∈ ps, p.reply.succeeded = true) :
    (calls op).any Call.hasNul = false := by
  have hstarted : ∀ c, (∃ p ∈ ps, p.call = c) → c.hasNul = false := by
    rintro _ ⟨p, hp, rfl⟩
    exact (h.ran.started p hp).1
  rw [List.any_eq_false]
  intro c hc
  rw [Bool.not_eq_true]
  -- an operation that is one step has one call, and it started
  have hone : ∀ {step d}, Does (run step d) g ps (.ok o) g' → c ∈ [d] → c.hasNul = false := by
    intro step d hrun hmem
    rw [List.mem_singleton] at hmem
    subst hmem
    obtain ⟨reply, rfl, -⟩ := does_run_ok hrun
    exact hstarted _ ⟨_, List.mem_cons_self, rfl⟩
  cases op with
  | switch branch =>
    have hbranch : Text.hasNul branch = false :=
      (Call.hasNul_checkout branch).symm.trans (hstarted _ ((does_switch h).smooth rfl hps).2)
    simp only [calls, List.mem_cons, List.not_mem_nil, or_false] at hc
    rcases hc with rfl | rfl | rfl
    · exact (Call.hasNul_checkout branch).trans hbranch
    · exact (Call.hasNul_verify branch).trans hbranch
    · exact (Call.hasNul_create branch).trans hbranch
  | stage paths =>
    have hcalls : ps.map (·.call) = paths.map .add := (does_stage_ok h).1
    rw [calls, ← hcalls] at hc
    exact hstarted c (List.mem_map.1 hc)
  | stageAllExcept excluded =>
    rcases List.mem_cons.1 hc with rfl | hc
    · exact Call.hasNul_addAll
    obtain ⟨path, hpath, rfl⟩ := List.mem_map.1 hc
    cases does_stageAllExcept h with
    | staged _ hrest =>
      have hresets := hrest.smooth rfl fun p hp => hps p (List.mem_cons_of_mem _ hp)
      obtain ⟨p, hp, hcall⟩ := hresets path hpath
      exact hstarted _ ⟨p, List.mem_cons_of_mem _ hp, hcall⟩
    | refused hno => have hok := hps _ List.mem_cons_self; rw [hno] at hok; cases hok
  | remove path => exact hone h hc
  | commit message stamp allowEmpty => exact hone h hc
  | merge source message stamp =>
    simp only [calls, List.mem_cons, List.not_mem_nil, or_false] at hc
    rcases hc with rfl | rfl
    · cases does_merge h with
      | merged _ => exact hstarted _ ⟨_, List.mem_cons_self, rfl⟩
      | refused _ _ => exact hstarted _ ⟨_, List.mem_cons_self, rfl⟩
      | undone _ _ => exact hstarted _ ⟨_, List.mem_cons_self, rfl⟩
    · exact Call.hasNul_abort
  | tag name message stamp => exact hone h hc

theorem smooth_performAll {ops : List Operation} {ps : List Process} {warnings : List String}
    (h : Does (Operation.performAll ops) g ps (.ok warnings) g')
    (hps : ∀ p ∈ ps, p.reply.succeeded = true) : (ops.flatMap calls).any Call.hasNul = false := by
  induction ops generalizing g g' ps warnings with
  | nil => rfl
  | cons op ops ih =>
    rcases does_bind h (logs_perform op) (fun _ => logs_bind (logs_performAll ops) fun _ =>
        logs_pure _) with ⟨_, -, heq⟩ | ⟨outcome, qs, g₁, rs, ho, hrs, rfl⟩
    · cases heq
    rcases does_bind hrs (logs_performAll ops) (fun _ => logs_pure _) with
      ⟨_, -, heq⟩ | ⟨rest, ts, g₂, us, hr, -, rfl⟩
    · cases heq
    have hop := smooth_perform ho fun p hp => hps p (List.mem_append_left _ hp)
    have hops := ih hr fun p hp => hps p (List.mem_append_right _ (List.mem_append_left _ hp))
    rw [List.flatMap_cons, List.any_append, hop, hops]; rfl

/-- **An event to which git agrees makes all its calls**, so there is no NUL in any of them. -/
theorem Course.smooth {ps : List Process} {report : Report} (h : Course r e g ps (.ok report))
    (hps : ∀ p ∈ ps, p.reply.succeeded = true) :
    ∃ m, ((r.operations e m).flatMap calls).any Call.hasNul = false := by
  cases h with
  | @barred _ _ o _ _ hs ho =>
    obtain ⟨heq, -⟩ := (does_switch hs).smooth rfl hps
    cases heq; cases ho
  | @written m sw qs ws _ _ _ _ _ _ hs hp hw =>
    have hsw : (calls (.switch e.branch)).any Call.hasNul = false :=
      smooth_perform hs fun p hp => hps p (by simp [hp])
    have hqs := smooth_performAll hp fun p hp => hps p (by simp [hp])
    have hws := smooth_perform hw fun p hp => hps p (by simp [hp])
    refine ⟨m, ?_⟩
    unfold Replayer.operations
    simp only [List.flatMap_cons, List.flatMap_append, List.any_append, List.flatMap_nil,
      List.append_nil, hsw, hqs, hws, Bool.or_false]

/-- A script that is used up agrees to everything. -/
theorem Served.of_nil {ps : List Process} {rest : List Reply} (h : Served [] ps rest) :
    rest = [] ∧ ∀ p ∈ ps, p.reply.succeeded = true := by
  induction ps with
  | nil => exact ⟨h, by simp⟩
  | cons p ps ih =>
    obtain ⟨hreply, hserved⟩ := h
    obtain ⟨hrest, hps⟩ := ih hserved
    refine ⟨hrest, fun q hq => ?_⟩
    rcases List.mem_cons.1 hq with rfl | hq
    · rw [hreply]; rfl
    · exact hps q hq

/-! ## Whole replays -/

/-- An event that has its moment and hands over no NUL gives a report. -/
theorem apply_reports {m : Moment} (hm : r.anchor.resolve e.time = .ok m)
    (hnul : (r.texts e).any Text.hasNul = false) (hb : g.blocked = none) :
    ∃ report g', (r.apply e).run g = (.ok report, g') ∧ g'.blocked = none := by
  obtain ⟨ps, hdoes⟩ := (logs_apply r e).does g
  rcases hrun : (r.apply e).run g with ⟨why | report, g'⟩ <;> rw [hrun] at hdoes
  · rcases (does_apply hdoes).fault with ⟨u, hu, -⟩ | ⟨m, -, c, hc, hwhy⟩
    · rw [hm] at hu; cases hu
    · rw [← r.hasNul_operations e m, List.any_eq_false] at hnul
      exact absurd hwhy (not_notStarted (Bool.eq_false_iff.2 (hnul c hc)) hb)
  · exact ⟨report, g', rfl, hdoes.ran.blocked.trans hb⟩

/-- What was open stays open. -/
theorem apply_blocked (hb : g.blocked = none) : ((r.apply e).run g).2.blocked = none := by
  obtain ⟨ps, hdoes⟩ := (logs_apply r e).does g
  exact hdoes.ran.blocked.trans hb

theorem before_blocked {es : List Event} (hb : g.blocked = none) :
    ∀ ep ∈ r.episodes es g, ep.before.blocked = none :=
  Replayer.before_of_kept (P := fun g : Git => g.blocked = none) hb fun _ _ _ => apply_blocked

theorem replayOnto_blocked {sm : Summary} {es : List Event} (hb : g.blocked = none) :
    (r.replayOnto sm es g).tool.blocked = none :=
  Replayer.tool_of_kept (P := fun g : Git => g.blocked = none) hb (fun _ _ => apply_blocked) sm es

theorem before_script {es : List Event} (hs : g.script = []) :
    ∀ ep ∈ r.episodes es g, ep.before.script = [] := by
  refine Replayer.before_of_kept (P := fun g : Git => g.script = []) hs fun e _ g hs => ?_
  obtain ⟨ps, hdoes⟩ := (logs_apply r e).does g
  have hserved := hdoes.ran.served
  rw [hs] at hserved
  exact hserved.of_nil.1

/-- **A checked plan faults on NUL only.** Where the working directory can be entered, its replay
gives a report for every event whatever git replies if and only if no text that its events hand
to git has a NUL in it, and otherwise a NUL is all that can end it. -/
theorem replay_completes_iff {text : String} {p : Plan} (h : Plan.parse text = .ok p) :
    ((∀ g : Git, g.blocked = none →
        (∃ total, (p.replayer.replay p.events g).result = .ok total) ∧
          (p.replayer.replay p.events g).reports.map (·.1) = p.events) ↔
      ∀ e ∈ p.events, ∀ s ∈ p.replayer.texts e, Text.hasNul s = false) ∧
    ∀ g : Git, g.blocked = none → ∀ why, (p.replayer.replay p.events g).result = .error why →
      ∃ command, why = .notStarted command .nul := by
  have hmoments := Plan.resolves_of_parse h
  refine ⟨⟨fun hall e he s hs => ?_, fun hnul g hb => ?_⟩, fun g hb why hwhy => ?_⟩
  · -- git agrees to everything, so the event makes all its calls
    obtain ⟨⟨total, hok⟩, -⟩ := hall {} rfl
    obtain ⟨ep, hep, rfl, report, hreport⟩ := Replayer.reported_of_result hok e he
    obtain ⟨hdoes, hcourse⟩ := course_of_mem hep
    have hserved := hdoes.ran.served
    rw [before_script rfl ep hep] at hserved
    rw [hreport] at hcourse
    obtain ⟨m, hcalls⟩ := hcourse.smooth hserved.of_nil.2
    rw [Replayer.hasNul_operations, List.any_eq_false] at hcalls
    exact Bool.eq_false_iff.2 (hcalls s hs)
  · have happly : ∀ e ∈ p.events, ∀ g : Git, g.blocked = none →
        ∃ report g', (p.replayer.apply e).run g = (.ok report, g') ∧ g'.blocked = none := by
      intro e he g hb
      obtain ⟨m, hm⟩ := hmoments e he
      have hnone : (p.replayer.texts e).any Text.hasNul = false :=
        List.any_eq_false.2 fun s hs => by rw [hnul e he s hs]; simp
      exact apply_reports hm hnone hb
    obtain ⟨total, hok⟩ :=
      Replayer.result_of_reported (P := fun g : Git => g.blocked = none) hb happly
    exact ⟨⟨total, hok⟩, Replayer.events_of_result hok⟩
  · -- the times have been checked, so the fault is about a call
    obtain ⟨ep, hep, hfault⟩ := Replayer.faulted_of_result hwhy
    obtain ⟨hdoes, hcourse⟩ := course_of_mem hep
    rw [hfault] at hcourse
    rcases hcourse.fault with ⟨u, hu, -⟩ | ⟨m, -, c, -, hnot⟩
    · obtain ⟨m, hm⟩ := hmoments ep.event (Replayer.mem_episodes hep).1
      cases hu.symm.trans hm
    · rcases hnot with ⟨-, rfl⟩ | ⟨-, why', hblocked, -⟩
      · exact ⟨_, rfl⟩
      · rw [before_blocked hb ep hep] at hblocked; cases hblocked

set_option maxRecDepth 20000 in
/-- A plan that is accepted, and stops midway: its second message has a NUL in it. -/
theorem second_commit_not_started :
    let text := "[anchor]\nstart = \"2025-10-18T09:00:00\"\n" ++
      "[authors.first]\nname = \"Ada\"\nemail = \"a@x\"\n" ++
      "[authors.second]\nname = \"Grace\"\nemail = \"g@x\"\n" ++
      "[[events]]\nkind = \"change\"\nbranch = \"main\"\nauthor = \"first\"\n" ++
      "day = 0\nhour = 9\nmessage = \"start\"\n" ++
      "[[events]]\nkind = \"change\"\nbranch = \"main\"\nauthor = \"first\"\n" ++
      "day = 1\nhour = 9\nmessage = \"a\\u0000b\"\n"
    ∃ p, Plan.parse text = .ok p ∧
      p.events.length = 2 ∧ (p.replayer.replay p.events ({} : Git)).reports.length = 1 ∧
      ¬ ∀ g : Git, g.blocked = none →
        (∃ total, (p.replayer.replay p.events g).result = .ok total) ∧
          (p.replayer.replay p.events g).reports.map (·.1) = p.events := by
  intro text
  let p : Plan := ⟨⟨⟨2025, 10, 18, by decide⟩, ⟨9, 0, 0, by decide, by decide, by decide⟩⟩,
    ⟨⟨"Ada", "a@x"⟩, ⟨"Grace", "g@x"⟩⟩, [],
    [⟨none, ⟨"main", .first, ⟨0, 9, 0⟩, .change "start" .nothing⟩⟩,
     ⟨none, ⟨"main", .first, ⟨1, 9, 0⟩, .change "a\x00b" .nothing⟩⟩]⟩
  have hchars : ∃ cs, text.toList = cs ∧ Plan.ofChars cs = some p := by
    refine ⟨?cs, ?hcs, ?hp⟩
    case hcs =>
      simp only [text, String.toList_append, String.reduceToList, List.cons_append, List.nil_append]
      exact rfl
    case hp => decide +kernel
  obtain ⟨cs, hcs, hp⟩ := hchars
  have hparse : Plan.parse text = .ok p := Plan.parse_of_chars hcs hp
  refine ⟨p, hparse, rfl, by decide +kernel, fun hall => ?_⟩
  have hnone := (replay_completes_iff hparse).1.1 hall _ (List.mem_cons_of_mem _ List.mem_cons_self)
  exact absurd (hnone "a\x00b" (by decide)) (by decide)

end Git

end Backdate
