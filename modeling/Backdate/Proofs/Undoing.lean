import Backdate.Proofs.BranchDiscipline

/-!
# Merges in conflict

A merge that fails and tells of a conflict is undone by the very next process,
and nothing else ever is (`conflicts_undone`).

* `Course.undoing`: an event either has nothing to do with this, or it goes to
  its branch, merges in conflict, undoes the merge and is over.
* `Undoing.again`: what git replies to the undoing does not show in the report.
  This is about two runs, so the processes of the one are found again in the
  other (`Switching.again`).
-/

namespace Backdate

open Calendar

namespace Call

/-- Whether a call merges a branch, always by a commit. -/
def merges (c : Call) : Bool := ["merge", "--no-ff"].isPrefixOf c.args

/-- Whether a call undoes a merge, with whatever variables. -/
def undoes (c : Call) : Bool := c.args == ["merge", "--abort"]

theorem command_of_merges {c : Call} (h : c.merges = true) : c.command = "merge" := by
  obtain ⟨rest, hargs⟩ := List.isPrefixOf_iff_prefix.1 h
  rw [command, ← hargs]; rfl

theorem command_of_undoes {c : Call} (h : c.undoes = true) : c.command = "merge" := by
  rw [command, beq_iff_eq.1 h]; rfl

theorem not_merges_of_undoes {c : Call} (h : c.undoes = true) : c.merges = false := by
  rw [merges, beq_iff_eq.1 h]; decide

end Call

/-- Whether a process is a merge that failed and tells of a conflict. -/
def Process.inConflict (p : Process) : Bool :=
  p.call.merges && !p.reply.succeeded && p.reply.inConflict

theorem Process.inConflict_iff {p : Process} :
    p.inConflict = true ↔
      p.call.merges = true ∧ p.reply.succeeded = false ∧ p.reply.inConflict = true := by
  simp [inConflict, and_assoc]

/-- Whether a process merges in conflict or undoes a merge. -/
def Process.unsettled (p : Process) : Prop := p.inConflict = true ∨ p.call.undoes = true

theorem Process.not_unsettled_of_command {p : Process} (h : p.call.command ≠ "merge") :
    ¬ p.unsettled := by
  rintro (hp | hp)
  · exact h (Call.command_of_merges (inConflict_iff.1 hp).1)
  · exact h (Call.command_of_undoes hp)

namespace Git

variable {r : Replayer} {e : Event} {g : Git}

/-! ## What comes of a conflict -/

/-- What a merge in conflict comes to, by the reply to it alone. -/
def conflictOutcome (reply : Reply) : Outcome :=
  .failure "merge" (Text.joinLines (conflicts reply.output))

/-- **An event that merges in conflict**: it goes to its branch, merges, and undoes the merge. -/
structure Undoing (r : Replayer) (e : Event) (g : Git) (sw : List Process) (m : Moment)
    (source : String) (reply : Reply) : Prop where
  action : e.action = .merge source
  moment : r.anchor.resolve e.time = .ok m
  switched : Switching g e.branch sw (.ok .success)
  failed : reply.succeeded = false
  conflict : reply.inConflict = true

/-- The process that merges, at the moment of the event. -/
def mergeProcess (r : Replayer) (e : Event) (m : Moment) (source : String) (reply : Reply) :
    Process :=
  ⟨.merge source (mergeMessage source e.branch) (r.stamp e.author m), reply⟩

theorem Undoing.inConflict {sw : List Process} {m : Moment} {source : String} {reply : Reply}
    (h : Undoing r e g sw m source reply) : (mergeProcess r e m source reply).inConflict = true :=
  Process.inConflict_iff.2 ⟨rfl, h.failed, h.conflict⟩

theorem settled_switch {branch : String} {sw : List Process} {res : Except Fault Outcome}
    (h : Switching g branch sw res) : ∀ p ∈ sw, ¬ p.unsettled := by
  intro p hp
  refine Process.not_unsettled_of_command fun heq => ?_
  exact (h.calls p hp).2 (by rw [heq]; simp)

theorem settled_prepared {g' : Git} {qs : List Process} {res : Except Fault (List String)}
    (h : Does (Operation.performAll (r.preparations e)) g qs res g') : ∀ p ∈ qs, ¬ p.unsettled := by
  intro p hp
  refine Process.not_unsettled_of_command fun heq => ?_
  have hprepares := prepares_of_does h p hp
  rw [Call.prepares, heq] at hprepares
  exact absurd hprepares (by decide)

/-- **Writing either leaves nothing unsettled, or merges in conflict and undoes it.** -/
theorem does_writing_undoing {stamp : Stamp} {g' : Git} {ws : List Process} {o : Outcome}
    (h : Does (e.writing stamp).perform g ws (.ok o) g') :
    (∀ p ∈ ws, ¬ p.unsettled) ∨
      ∃ source reply undone, e.action = .merge source ∧ reply.succeeded = false ∧
        reply.inConflict = true ∧ o = conflictOutcome reply ∧
        ws = [⟨.merge source (mergeMessage source e.branch) stamp, reply⟩, ⟨.abort, undone⟩] := by
  have hone : ∀ step c, c.command ≠ "merge" → Does (run step c) g ws (.ok o) g' →
      ∀ p ∈ ws, ¬ p.unsettled := by
    intro step c hc hrun p hp
    obtain ⟨reply, rfl, -⟩ := does_run_ok hrun
    rw [List.mem_singleton.1 hp]
    exact Process.not_unsettled_of_command hc
  rcases e with ⟨branch, author, time, action⟩
  cases action with
  | change message paths => exact .inl (hone "commit" _ (by simp [Call.command]) h)
  | deletion message paths => exact .inl (hone "commit" _ (by simp [Call.command]) h)
  | tag name message => exact .inl (hone "tag" _ (by simp [Call.command]) h)
  | merge source =>
    have hmerges : ∀ reply, reply.succeeded = true ∨ reply.inConflict = false →
        ∀ p ∈ [(⟨.merge source (mergeMessage source branch) stamp, reply⟩ : Process)],
          ¬ p.unsettled := by
      rintro reply hreply p hp (hp' | hp')
      · rw [List.mem_singleton.1 hp, Process.inConflict_iff] at hp'
        rcases hreply with hreply | hreply
        · exact absurd (hp'.2.1.symm.trans hreply) (by decide)
        · exact absurd (hreply.symm.trans hp'.2.2) (by decide)
      · rw [List.mem_singleton.1 hp] at hp'
        exact absurd hp' (by simp [Call.undoes, Call.merge])
    generalize hres : (.ok o : Except Fault Outcome) = res at h
    cases does_merge h with
    | merged hok => exact .inl (hmerges _ (.inl hok))
    | refused _ hc => exact .inl (hmerges _ (.inr hc))
    | @undone reply undone hno hc =>
      cases hres
      exact .inr ⟨source, reply, undone, rfl, hno, hc, rfl, rfl⟩
    | fault _ => cases hres

/-- **An event leaves nothing unsettled, or merges in conflict and undoes it at its end.** -/
theorem Course.undoing {ps : List Process} {res : Except Fault Report} (h : Course r e g ps res) :
    (∀ p ∈ ps, ¬ p.unsettled) ∨
      ∃ sw m source reply undone, Undoing r e g sw m source reply ∧
        ps = sw ++ [mergeProcess r e m source reply, ⟨.abort, undone⟩] ∧
        res = .ok (e.report m (conflictOutcome reply) []) := by
  have hboth : ∀ {sw qs : List Process}, (∀ p ∈ sw, ¬ p.unsettled) → (∀ p ∈ qs, ¬ p.unsettled) →
      ∀ p ∈ sw ++ qs, ¬ p.unsettled := by
    intro sw qs hsw hqs p hp
    exact (List.mem_append.1 hp).elim (hsw p) (hqs p)
  cases h with
  | unresolved _ => exact .inl (by simp)
  | lost _ hs => exact .inl (settled_switch (does_switch hs))
  | barred _ hs _ => exact .inl (settled_switch (does_switch hs))
  | unprepared _ hs hp => exact .inl (hboth (settled_switch (does_switch hs)) (settled_prepared hp))
  | unwritten _ hs hp _ =>
    exact .inl (hboth (settled_switch (does_switch hs)) (settled_prepared hp))
  | @written m sw qs ws warnings o _ _ _ hm hs hp hw =>
    rcases does_writing_undoing hw with hws | ⟨source, reply, undone, he, hno, hc, rfl, rfl⟩
    · exact .inl (hboth (settled_switch (does_switch hs)) (hboth (settled_prepared hp) hws))
    · have hnone : r.preparations e = [] := by unfold Replayer.preparations; rw [he]
      rw [hnone] at hp
      obtain ⟨rfl, hwarnings⟩ := does_pure hp
      cases hwarnings
      exact .inr ⟨sw, m, source, reply, undone, ⟨he, hm, does_switch hs, hno, hc⟩, rfl, rfl⟩

/-! ## Two runs -/

/-- Processes are served in parts. -/
theorem Served.split {a c : List Reply} {ps qs : List Process} (h : Served a (ps ++ qs) c) :
    ∃ b, Served a ps b ∧ Served b qs c := by
  induction ps generalizing a with
  | nil => exact ⟨a, rfl, h⟩
  | cons p ps ih =>
    obtain ⟨b, hps, hqs⟩ := ih h.2
    exact ⟨b, ⟨h.1, hps⟩, hqs⟩

/-- **A switch goes again as it went**, if git replies to it again as it did. -/
theorem Switching.again {g' : Git} {branch : String} {sw sw' : List Process} {o : Outcome}
    {res : Except Fault Outcome} {script rest rest' : List Reply}
    (h : Switching g branch sw (.ok o)) (h' : Switching g' branch sw' res)
    (hstarts : ∀ why, ¬ NotStarted g' (.checkout branch) why) (hs : Served script sw rest)
    (hs' : Served script sw' rest') : sw' = sw ∧ res = .ok o ∧ rest' = rest := by
  generalize hres : (.ok o : Except Fault Outcome) = res₀ at h
  cases h' with
  | fault hnot => exact absurd hnot (hstarts _)
  | there hok' => cases h <;> grind [Served]
  | stuck hno' hk' => cases h <;> grind [Served]
  | created hno' hk' => cases h <;> grind [Served]

/-- A switch to a branch that was reached once starts again. -/
theorem Switching.starts {g' : Git} {branch : String} {sw : List Process}
    (h : Switching g branch sw (.ok .success)) (hnul : ∀ p ∈ sw, p.call.hasNul = false)
    (hb : g'.blocked = none) : ∀ why, ¬ NotStarted g' (.checkout branch) why := by
  intro why
  refine not_notStarted ?_ hb
  obtain ⟨earlier, q, rfl, hq, -⟩ := h.arrived
  have hlast : q.call.hasNul = false := hnul q (by simp)
  rw [Call.hasNul_checkout]
  rcases hq with hq | hq
  · rw [← hlast, hq, Call.hasNul_checkout]
  · rw [← hlast, hq, Call.hasNul_create]

/-- A merge in conflict goes again as it went, up to the reply to its undoing. -/
theorem Merging.again {source message : String} {stamp : Stamp} {ws : List Process}
    {res : Except Fault Outcome} {reply other : Reply} {script rest rest' : List Reply}
    (h : Merging g source message stamp ws res)
    (hstarts : ∀ why, ¬ NotStarted g (.merge source message stamp) why)
    (hno : reply.succeeded = false) (hc : reply.inConflict = true)
    (hs : Served script [⟨.merge source message stamp, reply⟩, ⟨.abort, other⟩] rest)
    (hs' : Served script ws rest') :
    ws = [⟨.merge source message stamp, reply⟩, ⟨.abort, other⟩] ∧
      res = .ok (conflictOutcome reply) := by
  cases h with
  | merged hok => grind [Served]
  | refused _ hc' => grind [Served]
  | undone _ _ => grind [Served, conflictOutcome]
  | fault hnot => exact absurd hnot (hstarts _)

/-- **The reply to the undoing does not show.** Give the event a git that replies as before up to
there: it runs the same processes and comes to the same report. -/
theorem Undoing.again {sw : List Process} {m : Moment} {source : String} {reply : Reply}
    (h : Undoing r e g sw m source reply)
    (hnul : ∀ p ∈ sw ++ [mergeProcess r e m source reply], p.call.hasNul = false)
    {g' : Git} {other : Reply} {rest : List Reply} (hb : g'.blocked = none)
    (hserved : Served g'.script (sw ++ [mergeProcess r e m source reply, ⟨.abort, other⟩]) rest) :
    processes (r.episode e g') = sw ++ [mergeProcess r e m source reply, ⟨.abort, other⟩] ∧
      (r.episode e g').result = .ok (e.report m (conflictOutcome reply) []) := by
  obtain ⟨mid, hsw, hws⟩ := hserved.split
  have hstarts := h.switched.starts (fun p hp => hnul p (List.mem_append_left _ hp)) hb
  have hprep : r.preparations e = [] := by unfold Replayer.preparations; rw [h.action]
  have hwriting : ∀ stamp, e.writing stamp = .merge source (mergeMessage source e.branch) stamp := by
    intro stamp; unfold Event.writing; rw [h.action]
  have hswitch : ∀ {sw' res g₁}, Does (switch e.branch) g' sw' res g₁ →
      sw' = sw ∧ res = .ok .success ∧ g₁.script = mid ∧ g₁.blocked = none := by
    intro sw' res g₁ hs
    obtain ⟨hsw', hres, hmid⟩ := h.switched.again (does_switch hs) hstarts hsw hs.ran.served
    exact ⟨hsw', hres, hmid, hs.ran.blocked.trans hb⟩
  have hidle : ∀ {qs res g₁ g₂}, Does (Operation.performAll (r.preparations e)) g₁ qs res g₂ →
      qs = [] ∧ res = .ok [] ∧ g₂.script = g₁.script ∧ g₂.blocked = g₁.blocked := by
    intro qs res g₁ g₂ hp
    have hran := hp.ran
    rw [hprep] at hp
    obtain ⟨rfl, rfl⟩ := does_pure hp
    exact ⟨rfl, rfl, hran.served, hran.blocked⟩
  have hmerge : ∀ {ws res g₂ g₃}, Does (e.writing (r.stamp e.author m)).perform g₂ ws res g₃ →
      g₂.script = mid → g₂.blocked = none →
      ws = [mergeProcess r e m source reply, ⟨.abort, other⟩] ∧ res = .ok (conflictOutcome reply) := by
    intro ws res g₂ g₃ hw hmid hb₂
    have hserved₂ := hw.ran.served
    rw [hmid] at hserved₂
    rw [hwriting] at hw
    refine (does_merge hw).again (fun why => ?_) h.failed h.conflict hws hserved₂
    exact not_notStarted (hnul (mergeProcess r e m source reply) (by simp)) hb₂
  generalize hps : processes (r.episode e g') = ps
  generalize hres : (r.episode e g').result = res
  have hcourse := course_episode r e g'
  rw [hps, hres] at hcourse
  cases hcourse with
  | unresolved hm => rw [h.moment] at hm; cases hm
  | lost _ hs => cases (hswitch hs).2.1
  | barred _ hs ho => cases (hswitch hs).2.1; cases ho
  | unprepared _ _ hp => cases (hidle hp).2.1
  | unwritten hm hs hp hw =>
    obtain ⟨-, -, hmid, hb₁⟩ := hswitch hs
    obtain ⟨-, -, hmid₂, hb₂⟩ := hidle hp
    rw [h.moment] at hm
    cases hm
    cases (hmerge hw (hmid₂.trans hmid) (hb₂.trans hb₁)).2
  | written hm hs hp hw =>
    obtain ⟨rfl, -, hmid, hb₁⟩ := hswitch hs
    obtain ⟨rfl, hwarnings, hmid₂, hb₂⟩ := hidle hp
    rw [h.moment] at hm
    cases hm
    cases hwarnings
    obtain ⟨rfl, ho⟩ := hmerge hw (hmid₂.trans hmid) (hb₂.trans hb₁)
    cases ho
    exact ⟨rfl, rfl⟩

/-! ## Every event -/

/-- **What is asked of an event on git** about conflicts: a merge that fails and tells of a conflict
is undone by the next process, which is the last one of the event and carries no variables; nothing
else is undone; the outcome is a failure of the merge with the lines on conflicts that the merge
printed; and it is the same if git replies otherwise to the undoing. -/
structure Settled (r : Replayer) (e : Event) (g : Git) (ps : List Process)
    (res : Except Fault Report) : Prop where
  undone : ∀ before p after, ps = before ++ p :: after → p.inConflict = true →
    ∃ reply, after = [⟨.abort, reply⟩]
  only : ∀ before q after, ps = before ++ q :: after → q.call.undoes = true →
    ∃ earlier p, before = earlier ++ [p] ∧ p.inConflict = true
  outcome : ∀ p ∈ ps, p.inConflict = true → ∃ report, res = .ok report ∧
    report.outcome = .failure "merge" (Text.joinLines (conflicts p.reply.output))
  indifferent : ∀ before reply, ps = before ++ [⟨.abort, reply⟩] →
    ∀ (g' : Git) (other : Reply) (rest : List Reply), g'.blocked = g.blocked →
      Served g'.script (before ++ [⟨.abort, other⟩]) rest →
        processes (r.episode e g') = before ++ [⟨.abort, other⟩] ∧ (r.episode e g').result = res

theorem inConflict_abort (reply : Reply) : Process.inConflict ⟨.abort, reply⟩ = false := by
  simp [Process.inConflict, Call.merges, Call.abort]

theorem undoes_abort (reply : Reply) : (⟨.abort, reply⟩ : Process).call.undoes = true := by
  simp [Call.undoes, Call.abort]

/-- An event that leaves nothing unsettled is settled. -/
theorem settled_of_quiet {ps : List Process} {res : Except Fault Report}
    (h : ∀ p ∈ ps, ¬ p.unsettled) : Settled r e g ps res where
  undone before p after hps hp := absurd (.inl hp) (h p (by rw [hps]; simp))
  only before q after hps hq := absurd (.inr hq) (h q (by rw [hps]; simp))
  outcome p hmem hp := absurd (.inl hp) (h p hmem)
  indifferent before reply hps :=
    absurd (.inr (undoes_abort reply)) (h ⟨.abort, reply⟩ (by rw [hps]; simp))

/-- An event that merges in conflict is settled. -/
theorem Undoing.settled {sw ps : List Process} {m : Moment} {source : String}
    {reply undone : Reply} (h : Undoing r e g sw m source reply)
    (hps : ps = sw ++ [mergeProcess r e m source reply, ⟨.abort, undone⟩])
    (hstarted : ∀ p ∈ ps, p.call.hasNul = false ∧ g.blocked = none) :
    Settled r e g ps (.ok (e.report m (conflictOutcome reply) [])) := by
  have hquiet := settled_switch h.switched
  have hsw : ∀ p ∈ sw, ¬ p.inConflict = true := fun p hp hc => hquiet p hp (.inl hc)
  have hlast : ∀ p ∈ [(⟨.abort, undone⟩ : Process)], ¬ p.inConflict = true := by
    simp [inConflict_abort]
  have hfront : ps = (sw ++ [mergeProcess r e m source reply]) ++ [⟨.abort, undone⟩] := by
    rw [hps, List.append_assoc]; rfl
  subst hps
  -- the conflict is the last process but one, and the undoing is the last
  refine ⟨fun before p after heq hp => ?_, fun before q after heq hq => ?_, fun p hmem hp => ?_, ?_⟩
  · obtain ⟨rfl, rfl⟩ := split_unique heq hsw hlast hp
    have hafter := (List.cons.inj (List.append_cancel_left heq)).2
    exact ⟨undone, hafter.symm⟩
  · have hnone : ∀ p ∈ sw ++ [mergeProcess r e m source reply], ¬ p.call.undoes = true := by
      intro p hp hundoes
      rcases List.mem_append.1 hp with hp | hp
      · exact hquiet p hp (.inr hundoes)
      · rw [List.mem_singleton.1 hp] at hundoes
        exact absurd h.inConflict (by simp [Process.inConflict, Call.not_merges_of_undoes hundoes])
    rw [hfront] at heq
    obtain ⟨rfl, -⟩ := split_unique heq hnone (by simp) hq
    exact ⟨sw, _, rfl, h.inConflict⟩
  · obtain ⟨before, after, heq⟩ := List.append_of_mem hmem
    obtain ⟨-, rfl⟩ := split_unique heq hsw hlast hp
    exact ⟨_, rfl, rfl⟩
  · intro before other' heq g' other rest hb hserved
    rw [hfront] at heq
    obtain ⟨rfl, -⟩ := List.append_inj' heq rfl
    have hnone : g'.blocked = none := hb.trans (hstarted ⟨.abort, undone⟩ (by simp)).2
    rw [List.append_assoc] at hserved ⊢
    refine h.again (fun p hp => (hstarted p ?_).1) hnone hserved
    rw [hfront]; exact List.mem_append_left _ hp

/-- **A merge in conflict is undone, and nothing else is.** Cut a replay into its events: the
processes of the replay are theirs, and each event is settled, whatever git replies to any of
them. -/
theorem conflicts_undone (r : Replayer) (es : List Event) (g : Git) :
    (r.replay es g).tool.ran = g.ran ++ (r.episodes es g).flatMap processes ∧
      ∀ ep ∈ r.episodes es g, Settled r ep.event ep.before (processes ep) ep.result := by
  refine ⟨replayOnto_ran r {} es g, fun ep hep => ?_⟩
  obtain ⟨hdoes, hcourse⟩ := course_of_mem hep
  rcases hcourse.undoing with hquiet | ⟨sw, m, source, reply, undone, h, hps, hres⟩
  · exact settled_of_quiet hquiet
  · rw [hres]
    exact h.settled hps hdoes.ran.started

/-- The undoing fails, and the report does not tell: it is the same where the undoing succeeds. -/
theorem failed_undoing_not_shown :
    let r : Replayer :=
      ⟨⟨⟨2025, 10, 18, by decide⟩, ⟨9, 0, 0, by decide, by decide, by decide⟩⟩,
        ⟨⟨"Ada", "a@x"⟩, ⟨"Grace", "g@x"⟩⟩, []⟩
    let e : Event := ⟨"main", .first, ⟨0, 9, 0⟩, .merge "side"⟩
    let conflict : Reply := { exit := 1, stdout := "CONFLICT in a\n".toUTF8.toList }
    let g : Git := { script := [{}, conflict, { exit := 128 }] }
    let g' : Git := { script := [{}, conflict, {}] }
    (processes (r.episode e g)).map (·.call.args) =
        [["checkout", "-q", "main", "--"],
          ["merge", "--no-ff", "-m", "Merge branch 'side' into main", "side"],
          ["merge", "--abort"]] ∧
      (∃ p ∈ processes (r.episode e g), p.inConflict = true) ∧
      (r.episode e g').result = (r.episode e g).result := by
  intro r e conflict g g'
  have hmem : r.episode e g ∈ r.episodes [e] g := List.mem_cons_self
  have hsettled := (conflicts_undone r [e] g).2 _ hmem
  let merged : Process := mergeProcess r e r.anchor.start "side" conflict
  have hps : processes (r.episode e g) =
      [⟨.checkout "main", {}⟩, merged] ++ [⟨.abort, { exit := 128 }⟩] := by decide +kernel
  have hserved : Served g'.script ([⟨.checkout "main", {}⟩, merged] ++ [⟨.abort, {}⟩]) [] :=
    ⟨rfl, rfl, rfl, rfl⟩
  refine ⟨by rw [hps]; decide, ⟨merged, by rw [hps]; simp, by decide +kernel⟩, ?_⟩
  exact (hsettled.indifferent _ _ hps g' {} [] rfl hserved).2

end Git

end Backdate
