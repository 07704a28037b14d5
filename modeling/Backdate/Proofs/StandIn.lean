import Backdate.Proofs.Handover
import Backdate.Proofs.Recording

/-!
# The recorder stands in for git

If git answers each call as a recorder foretells, a replay on git and a replay on
the recorder give the same account, and git is called as the recording spells
out (`replay_standsIn`).

* `perform_foretold`: so it is for each of the seven operations;
* `StandsIn`: the relation between an action on git and one on a recorder, which
  goes through sequences (`standsIn_bind`), events and replays.
-/

namespace Backdate

open Calendar

namespace Git

variable {α β γ δ : Type} {r : Replayer} {e : Event} {t : Recorder} {g g' : Git}

/-- Whether the replies of a script succeed and fail as told, and none tells of a conflict. -/
def agrees : List Reply → List Bool → Bool
  | _, [] => true
  | script, v :: vs =>
    (script.headD {}).succeeded == v && !(script.headD {}).inConflict && agrees script.tail vs

/-- One process of a script that agrees. -/
theorem Served.foretold {script rest : List Reply} {p : Process} {ps : List Process} {v : Bool}
    {vs : List Bool} (h : Served script (p :: ps) rest) (hs : agrees script (v :: vs) = true) :
    p.reply.succeeded = v ∧ p.reply.inConflict = false ∧
      Served script.tail ps rest ∧ agrees script.tail vs = true := by
  obtain ⟨hreply, hrest⟩ := h
  simp only [agrees, Bool.and_eq_true, beq_iff_eq, Bool.not_eq_true'] at hs
  rw [hreply]
  exact ⟨hs.1.1, hs.1.2, hrest, hs.2⟩

theorem Served.foretold_nil {script rest : List Reply} {vs : List Bool} (h : Served script [] rest)
    (hs : agrees script vs = true) : agrees rest vs = true := by
  have heq : rest = script := h
  rw [heq]; exact hs

/-- A script that agrees with as many verdicts as there are processes. -/
theorem Served.foretold_all {script rest : List Reply} {ps : List Process} {bs vs : List Bool}
    (h : Served script ps rest) (hs : agrees script (bs ++ vs) = true)
    (hlen : ps.length = bs.length) :
    ps.map (·.reply.succeeded) = bs ∧ agrees rest vs = true := by
  induction ps generalizing script bs with
  | nil =>
    cases bs with
    | nil => exact ⟨rfl, h.foretold_nil hs⟩
    | cons b bs => cases hlen
  | cons p ps ih =>
    cases bs with
    | nil => cases hlen
    | cons b bs =>
      obtain ⟨hp, -, hrest, hs'⟩ := h.foretold hs
      obtain ⟨hps, hvs⟩ := ih hrest hs' (Nat.succ.inj hlen)
      exact ⟨by rw [List.map_cons, hp, hps], hvs⟩

/-! ## One operation -/

theorem Switching.foretold {branch : String} {ps : List Process} {o : Outcome}
    {script rest : List Reply} {vs : List Bool} (h : Switching g branch ps (.ok o))
    (hserved : Served script ps rest)
    (hs : agrees script (t.answers (.switch branch) ++ vs) = true) :
    ps.map (·.call) = (t.invocation (.switch branch)).expansion ∧ o.isSuccess = true ∧
      agrees rest vs = true := by
  simp only [Recorder.answers] at hs
  simp only [Recorder.invocation, Invocation.expansion]
  generalize hres : (.ok o : Except Fault Outcome) = res at h
  by_cases hknown : branch ∈ t.branches
  · -- a known branch: one call, and it succeeds
    rw [if_pos hknown, List.singleton_append] at hs
    simp only [hknown, not_true_eq_false, decide_false, Bool.false_eq_true, if_false]
    cases h with
    | there _ =>
      cases hres
      obtain ⟨-, -, hserved, hs⟩ := hserved.foretold hs
      exact ⟨rfl, rfl, hserved.foretold_nil hs⟩
    | stuck hno _ => cases hno.symm.trans (hserved.foretold hs).1
    | created hno _ => cases hno.symm.trans (hserved.foretold hs).1
    | fault _ => cases hres
  · -- a new branch: git does not go there, does not know it, and creates it
    rw [if_neg hknown] at hs
    simp only [hknown, not_false_eq_true, decide_true, if_true]
    cases h with
    | there hok => cases hok.symm.trans (hserved.foretold hs).1
    | stuck _ hk =>
      obtain ⟨-, -, hserved, hs⟩ := hserved.foretold hs
      cases hk.symm.trans (hserved.foretold hs).1
    | @created _ _ made _ _ =>
      cases hres
      obtain ⟨-, -, hserved, hs⟩ := hserved.foretold hs
      obtain ⟨-, -, hserved, hs⟩ := hserved.foretold hs
      obtain ⟨hmade, -, hserved, hs⟩ := hserved.foretold hs
      exact ⟨rfl, (made.isSuccess_outcome _).trans hmade, hserved.foretold_nil hs⟩
    | fault _ => cases hres

theorem Unstaging.foretold {paths : List String} {ps : List Process} {o : Outcome}
    {script rest : List Reply} {vs : List Bool} (h : Unstaging g paths ps (.ok o))
    (hserved : Served script ps rest)
    (hs : agrees script ((paths.map fun _ => true) ++ vs) = true) :
    ps.map (·.call) = paths.map .reset ∧ o.isSuccess = true ∧ agrees rest vs = true := by
  generalize hres : (.ok o : Except Fault Outcome) = res at h
  induction h generalizing script with
  | done => cases hres; exact ⟨rfl, rfl, hserved.foretold_nil hs⟩
  | next _ _ ih =>
    obtain ⟨-, -, hserved, hs⟩ := hserved.foretold hs
    obtain ⟨hcalls, hok, hs⟩ := ih hserved hs hres
    exact ⟨by rw [List.map_cons, hcalls]; rfl, hok, hs⟩
  | stuck hno => cases hno.symm.trans (hserved.foretold hs).1
  | fault _ => cases hres

theorem does_run_foretold {step : String} {c : Call} {ps : List Process} {o : Outcome} {v : Bool}
    {vs : List Bool} (h : Does (run step c) g ps (.ok o) g')
    (hs : agrees g.script ([v] ++ vs) = true) :
    ps.map (·.call) = [c] ∧ o.isSuccess = v ∧ agrees g'.script vs = true := by
  obtain ⟨reply, rfl, rfl⟩ := does_run_ok h
  obtain ⟨hv, -, hserved, hs⟩ := h.ran.served.foretold hs
  exact ⟨rfl, (reply.isSuccess_outcome step).trans hv, hserved.foretold_nil hs⟩

/-- **An operation goes as foretold**: git is called as the recording spells out, and the outcome is
a success where the recorder's is. -/
theorem perform_foretold {op : Operation} {ps : List Process} {o : Outcome} {vs : List Bool}
    (hcheckout : "checkout" ∉ t.failing) (h : Does op.perform g ps (.ok o) g')
    (hs : agrees g.script (t.answers op ++ vs) = true) :
    ps.map (·.call) = (t.invocation op).expansion ∧ o.isSuccess = (t.step op).1.isSuccess ∧
      agrees g'.script vs = true := by
  cases op with
  | switch branch =>
    obtain ⟨hcalls, hok, hs⟩ := (does_switch h).foretold h.ran.served hs
    exact ⟨hcalls, hok.trans (Recorder.isSuccess_switch branch hcheckout).symm, hs⟩
  | stage paths =>
    obtain ⟨hcalls, hok⟩ := does_stage_ok h
    have hlen : ps.length = (paths.map t.hasPath).length := by
      rw [List.length_map, ← List.length_map (f := Process.call), hcalls, List.length_map]
    obtain ⟨hall, hs⟩ := h.ran.served.foretold_all hs hlen
    refine ⟨hcalls, ?_, hs⟩
    show o.isSuccess = (t.stage paths).1.isSuccess
    have hsame : ps.all (·.reply.succeeded) = (ps.map (·.reply.succeeded)).all id := by
      rw [List.all_map]; rfl
    rw [Recorder.isSuccess_stage, hok, hsame, hall, Recorder.answers, List.all_map]; rfl
  | stageAllExcept excluded =>
    have hserved := h.ran.served
    generalize hres : (.ok o : Except Fault Outcome) = res at h
    cases does_stageAllExcept h with
    | staged _ hrest =>
      subst hres
      obtain ⟨-, -, hserved, hs⟩ := hserved.foretold hs
      obtain ⟨hcalls, hok, hs⟩ := hrest.foretold hserved hs
      exact ⟨by rw [List.map_cons, hcalls]; rfl, hok, hs⟩
    | refused hno => cases hno.symm.trans (hserved.foretold hs).1
    | fault _ => cases hres
  | remove path =>
    obtain ⟨hcalls, hok, hs⟩ := does_run_foretold h hs
    exact ⟨hcalls, hok.trans (t.isSuccess_remove path).symm, hs⟩
  | commit message stamp allowEmpty => exact does_run_foretold h hs
  | merge source message stamp =>
    have hserved := h.ran.served
    generalize hres : (.ok o : Except Fault Outcome) = res at h
    cases does_merge h with
    | merged hok =>
      cases hres
      obtain ⟨hv, -, hserved, hs⟩ := hserved.foretold hs
      exact ⟨rfl, hok.symm.trans hv, hserved.foretold_nil hs⟩
    | refused hno _ =>
      cases hres
      obtain ⟨hv, -, hserved, hs⟩ := hserved.foretold hs
      exact ⟨rfl, hno.symm.trans hv, hserved.foretold_nil hs⟩
    -- no reply tells of a conflict, so nothing is undone
    | undone _ hc => cases hc.symm.trans (hserved.foretold hs).2.1
    | fault _ => cases hres
  | tag name message stamp => exact does_run_foretold h hs

/-- An operation without NUL, in a directory that can be entered, comes to an outcome. -/
theorem does_perform_ok {op : Operation} (hb : g.blocked = none)
    (hnul : op.texts.any Text.hasNul = false) : ∃ o ps g', Does op.perform g ps (.ok o) g' := by
  obtain ⟨ps, hdoes⟩ := (logs_perform op).does g
  cases hres : (op.perform.run g).1 with
  | ok o => rw [hres] at hdoes; exact ⟨o, ps, _, hdoes⟩
  | error why =>
    rw [hres] at hdoes
    obtain ⟨c, hc, hnot⟩ := (does_perform hdoes).2 why rfl
    rw [← hasNul_calls, List.any_eq_false] at hnul
    exact absurd hnot (not_notStarted (Bool.eq_false_iff.2 (hnul c hc)) hb)

/-! ## Actions -/

/-- **A recorder stands in for git**: where git agrees with what the recorder foretells, the action
on git ends well too, with a related value and the calls that the recording spells out. -/
def StandsIn (x : Act Git α) (y : Act Recorder β) (R : α → β → Prop) : Prop :=
  ∀ g t b t' is vs, g.blocked = none → "checkout" ∉ t.failing → y.run t = (.ok b, t') →
    Recorder.Follows t is t' → agrees g.script (t.verdicts is ++ vs) = true →
    ∃ a ps g', Does x g ps (.ok a) g' ∧ ps.map (·.call) = is.flatMap (·.expansion) ∧
      agrees g'.script vs = true ∧ R a b

theorem standsIn_pure {R : α → β → Prop} {a : α} {b : β} (h : R a b) :
    StandsIn (pure a) (pure b) R := by
  intro g t _ t' is vs _ _ hrun hfollows hs
  obtain ⟨heq, rfl⟩ := Prod.mk.inj hrun
  cases heq
  obtain rfl : is = [] := hfollows.unique (Recorder.follows_refl t)
  exact ⟨a, [], g, ⟨rfl, Ran.idle rfl rfl rfl⟩, rfl, hs, h⟩

/-- **Standing in goes through sequences.** -/
theorem standsIn_bind {x : Act Git α} {y : Act Recorder β} {f : α → Act Git γ}
    {k : β → Act Recorder δ} {R : α → β → Prop} {S : γ → δ → Prop} (hy : Recorder.Records y)
    (hk : ∀ b, Recorder.Records (k b)) (hxy : StandsIn x y R)
    (hfk : ∀ a b, R a b → StandsIn (f a) (k b) S) : StandsIn (x >>= f) (y >>= k) S := by
  intro g t c t₂ ks vs hb hcheckout hrun hfollows hs
  -- the recorder's side, cut where its first action ends
  obtain ⟨b, t₁, is, hrun₁, hfollows₁⟩ := hy t
  obtain ⟨c', t₂', js, hrun₂, hfollows₂⟩ := hk b t₁
  rw [Act.run_bind, hrun₁] at hrun
  obtain ⟨heq, rfl⟩ := Prod.mk.inj (hrun₂.symm.trans hrun)
  cases heq
  obtain rfl : ks = is ++ js := hfollows.unique (hfollows₁.trans hfollows₂)
  -- git's side, which agrees with the first part and then with the second
  rw [hfollows₁.verdicts, List.append_assoc] at hs
  obtain ⟨a, ps, g₁, hdoes₁, hcalls₁, hs₁, hR⟩ := hxy g t b t₁ is _ hb hcheckout hrun₁ hfollows₁ hs
  have hb₁ : g₁.blocked = none := hdoes₁.ran.blocked.trans hb
  have hcheckout₁ : "checkout" ∉ t₁.failing := hfollows₁.failing ▸ hcheckout
  obtain ⟨d, qs, g₂, hdoes₂, hcalls₂, hs₂, hS⟩ :=
    hfk a b hR g₁ t₁ c t₂' js vs hb₁ hcheckout₁ hrun₂ hfollows₂ hs₁
  have hdoes : Does (x >>= f) g (ps ++ qs) (.ok d) g₂ :=
    ⟨by rw [Act.run_bind, hdoes₁.run]; exact hdoes₂.run, hdoes₁.ran.trans hdoes₂.ran⟩
  refine ⟨d, ps ++ qs, g₂, hdoes, ?_, hs₂, hS⟩
  rw [List.map_append, List.flatMap_append, hcalls₁, hcalls₂]

theorem standsIn_perform {op : Operation} (hnul : op.texts.any Text.hasNul = false) :
    StandsIn op.perform op.perform fun o o' : Outcome => o.isSuccess = o'.isSuccess := by
  intro g t _ t' is vs hb hcheckout hrun hfollows hs
  rw [Recorder.run_perform] at hrun
  obtain ⟨heq, rfl⟩ := Prod.mk.inj hrun
  cases heq
  obtain rfl : is = [t.invocation op] := hfollows.unique (t.follows_step op)
  rw [Recorder.verdicts_invocation] at hs
  obtain ⟨o, ps, g', hdoes⟩ := does_perform_ok hb hnul
  obtain ⟨hcalls, hsame, hs⟩ := perform_foretold hcheckout hdoes hs
  exact ⟨o, ps, g', hdoes, by rw [hcalls, List.flatMap_singleton], hs, hsame⟩

/-- Notes are kept on both sides, and say what they like. -/
theorem standsIn_note {R : α → β → Prop} {a : α} {b : β} (n n' : Note) (h : R a b) :
    StandsIn (do modify (Tool.note n); pure a) (do modify (Tool.note n'); pure b) R := by
  intro g t _ t' is vs _ _ hrun hfollows hs
  obtain ⟨heq, rfl⟩ := Prod.mk.inj hrun
  cases heq
  obtain rfl : is = [] := hfollows.unique (Recorder.follows_note n' t)
  exact ⟨a, [], _, ⟨rfl, Ran.idle rfl rfl rfl⟩, rfl, hs, h⟩

/-! ## Events -/

theorem records_performAll (ops : List Operation) :
    Recorder.Records (Operation.performAll ops : Act Recorder (List String)) := by
  induction ops with
  | nil => exact Recorder.records_pure _
  | cons op ops ih =>
    exact Recorder.records_bind (Recorder.records_perform op) fun _ =>
      Recorder.records_bind ih fun _ => Recorder.records_pure _

theorem standsIn_performAll {ops : List Operation}
    (hnul : ∀ op ∈ ops, op.texts.any Text.hasNul = false) :
    StandsIn (Operation.performAll ops) (Operation.performAll ops)
      fun w w' : List String => w.length = w'.length := by
  induction ops with
  | nil => exact standsIn_pure rfl
  | cons op ops ih =>
    refine standsIn_bind (Recorder.records_perform op) (fun _ => Recorder.records_bind
      (records_performAll ops) fun _ => Recorder.records_pure _)
      (standsIn_perform (hnul op List.mem_cons_self)) fun o o' hsame => ?_
    refine standsIn_bind (records_performAll ops) (fun _ => Recorder.records_pure _)
      (ih fun op hop => hnul op (List.mem_cons_of_mem _ hop)) fun w w' hlen => standsIn_pure ?_
    rw [List.length_append, List.length_append, hlen, Outcome.length_describe_toList,
      Outcome.length_describe_toList, hsame]

end Git

/-- What two reports on an event have to share: all but the words of their failures. -/
def Report.outline (report : Report) : Kind × Moment × Author × String × Bool × Nat :=
  (report.kind, report.timestamp, report.author, report.label, report.succeeded,
    report.warnings.length)

/-- A summary sees no more of a report than its outline. -/
theorem Summary.record_of_outline (s : Summary) {report report' : Report}
    (h : report.outline = report'.outline) : s.record report = s.record report' := by
  simp only [Report.outline, Prod.mk.injEq] at h
  obtain ⟨hkind, htime, -, hlabel, hok, -⟩ := h
  unfold Summary.record Report.countsAsCommit
  rw [hkind, htime, hlabel, hok]

namespace Git

variable {r : Replayer} {e : Event} {m : Moment}

/-- The operations of an event that hands over no NUL have none. -/
theorem operations_nul (hnul : (r.texts e).any Text.hasNul = false) :
    ∀ op ∈ r.operations e m, op.texts.any Text.hasNul = false := by
  intro op hop
  rw [← r.hasNul_operations e m, List.any_eq_false] at hnul
  rw [← hasNul_calls, List.any_eq_false]
  exact fun c hc => hnul c (List.mem_flatMap.2 ⟨op, hop, hc⟩)

theorem records_onBranch (r : Replayer) (e : Event) (m : Moment) :
    Recorder.Records (r.onBranch e m) :=
  Recorder.records_bind (records_performAll _) fun _ =>
    Recorder.records_bind (Recorder.records_perform _) fun _ => Recorder.records_pure _

theorem records_afterSwitch (r : Replayer) (e : Event) (m : Moment) (o : Outcome) :
    Recorder.Records (if o.isSuccess then r.onBranch e m else pure (e.report m o [])) := by
  split
  · exact records_onBranch r e m
  · exact Recorder.records_pure _

theorem standsIn_onBranch (hnul : ∀ op ∈ r.operations e m, op.texts.any Text.hasNul = false) :
    StandsIn (r.onBranch e m) (r.onBranch e m) fun a b : Report => a.outline = b.outline := by
  have hprepare : ∀ op ∈ r.preparations e, op.texts.any Text.hasNul = false :=
    fun op hop => hnul op (by simp [Replayer.operations, hop])
  have hwrite := hnul (e.writing (r.stamp e.author m)) (by simp [Replayer.operations])
  refine standsIn_bind (records_performAll _) (fun _ => Recorder.records_bind
    (Recorder.records_perform _) fun _ => Recorder.records_pure _)
    (standsIn_performAll hprepare) fun w w' hlen => ?_
  refine standsIn_bind (Recorder.records_perform _) (fun _ => Recorder.records_pure _)
    (standsIn_perform hwrite) fun o o' hsame => standsIn_pure ?_
  simp only [Event.report, Report.outline, Report.succeeded, hsame, hlen]

/-- **An event goes on git as it goes on the recorder.** -/
theorem standsIn_event (hm : r.anchor.resolve e.time = .ok m)
    (hnul : (r.texts e).any Text.hasNul = false) :
    StandsIn (r.perform e) (r.perform e) fun a b : Report => a.outline = b.outline := by
  have hops := operations_nul (m := m) hnul
  rw [Replayer.perform_eq, Replayer.perform_eq, Replayer.resolve_eq hm, Replayer.resolve_eq hm,
    pure_bind, pure_bind]
  refine standsIn_bind (Recorder.records_perform _) (records_afterSwitch r e m)
    (standsIn_perform (hops _ List.mem_cons_self)) fun o o' hsame => ?_
  cases hok : o'.isSuccess <;> rw [hok] at hsame <;> rw [hsame]
  · refine standsIn_pure ?_
    simp only [Event.report, Report.outline, Report.succeeded, hsame, hok]
  · exact standsIn_onBranch hops

theorem records_event (hm : r.anchor.resolve e.time = .ok m) :
    Recorder.Records (r.perform e) := by
  rw [Replayer.perform_eq, Replayer.resolve_eq hm, pure_bind]
  exact Recorder.records_bind (Recorder.records_perform _) (records_afterSwitch r e m)

theorem records_noted (report : Report) : Recorder.Records (Replayer.noted report) := by
  unfold Replayer.noted
  cases report.outcome.describe with
  | none => exact Recorder.records_pure _
  | some line =>
    exact Recorder.records_bind (Recorder.records_note _) fun _ => Recorder.records_pure _

theorem records_apply (hm : r.anchor.resolve e.time = .ok m) : Recorder.Records (r.apply e) := by
  rw [Replayer.apply_eq]
  exact Recorder.records_bind (records_event hm) records_noted

/-- The note that is kept of a failure is kept on both sides or on neither. -/
theorem standsIn_apply (hm : r.anchor.resolve e.time = .ok m)
    (hnul : (r.texts e).any Text.hasNul = false) :
    StandsIn (r.apply e) (r.apply e) fun a b : Report => a.outline = b.outline := by
  rw [Replayer.apply_eq, Replayer.apply_eq]
  refine standsIn_bind (records_event hm) records_noted (standsIn_event hm hnul) fun a b hsame => ?_
  have hok : a.outcome.isSuccess = b.outcome.isSuccess := by
    simp only [Report.outline, Prod.mk.injEq] at hsame
    exact hsame.2.2.2.2.1
  -- the lines differ, but there is one on either side or on none
  have hlen : a.outcome.describe.toList.length = b.outcome.describe.toList.length := by
    rw [Outcome.length_describe_toList, Outcome.length_describe_toList, hok]
  unfold Replayer.noted
  cases ha : a.outcome.describe with
  | none =>
    cases hb : b.outcome.describe with
    | none => exact standsIn_pure hsame
    | some line => rw [ha, hb] at hlen; cases hlen
  | some line =>
    cases hb : b.outcome.describe with
    | none => rw [ha, hb] at hlen; cases hlen
    | some line' => exact standsIn_note _ _ hsame

/-! ## Replays -/

/-- A whole replay, onto any summary and from any state of the recorder. The recorder's side is
fixed first: what it foretells does not depend on git. -/
theorem replayOnto_standsIn {es : List Event}
    (hnul : ∀ e ∈ es, (r.texts e).any Text.hasNul = false)
    (htime : ∀ e ∈ es, ∃ m, r.anchor.resolve e.time = .ok m) (sm : Summary) (t : Recorder)
    (hcheckout : "checkout" ∉ t.failing) :
    ∃ total is, (r.replayOnto sm es t).result = .ok total ∧
      Recorder.Follows t is (r.replayOnto sm es t).tool ∧
      ∀ g : Git, g.blocked = none → agrees g.script (t.verdicts is) = true →
        (r.replayOnto sm es g).result = .ok total ∧
        (r.replayOnto sm es g).reports.map (fun er => (er.1, er.2.outline)) =
          (r.replayOnto sm es t).reports.map (fun er => (er.1, er.2.outline)) ∧
        (r.replayOnto sm es g).tool.ran.map (·.call) =
          g.ran.map (·.call) ++ is.flatMap (·.expansion) := by
  induction es generalizing sm t with
  | nil =>
    refine ⟨sm, [], rfl, Recorder.follows_refl t, fun g _ _ => ⟨rfl, rfl, ?_⟩⟩
    exact (List.append_nil _).symm
  | cons e es ih =>
    obtain ⟨m, hm⟩ := htime e List.mem_cons_self
    obtain ⟨b, t₁, is, hrun, hfollows⟩ := records_apply hm t
    have hcheckout₁ : "checkout" ∉ t₁.failing := hfollows.failing ▸ hcheckout
    obtain ⟨total, js, hresult, hfollows', hgit⟩ :=
      ih (fun e he => hnul e (List.mem_cons_of_mem _ he))
        (fun e he => htime e (List.mem_cons_of_mem _ he)) (sm.record b) t₁ hcheckout₁
    rw [Replayer.replayOnto_cons_ok hrun]
    refine ⟨total, is ++ js, hresult, hfollows.trans hfollows', fun g hb hs => ?_⟩
    rw [hfollows.verdicts] at hs
    obtain ⟨a, ps, g₁, hdoes, hcalls, hs₁, hsame⟩ :=
      standsIn_apply hm (hnul e List.mem_cons_self) g t b t₁ is _ hb hcheckout hrun hfollows hs
    have hb₁ : g₁.blocked = none := hdoes.ran.blocked.trans hb
    obtain ⟨hok, hreports, hran⟩ := hgit g₁ hb₁ hs₁
    rw [Replayer.replayOnto_cons_ok hdoes.run, sm.record_of_outline hsame]
    refine ⟨hok, ?_, ?_⟩
    · rw [List.map_cons, List.map_cons, hreports, hsame]
    · rw [hran, hdoes.ran.ran, List.map_append, hcalls, List.flatMap_append, List.append_assoc]

/-- **The recorder stands in for git.** Take events that have their moments and hand over no NUL, a
recorder that has recorded nothing and does not make `checkout` fail, and git in a directory that
can be entered. If git answers each of its calls as the recorder's state at that point says, then
both replays report every event, with reports of the same outline and with the same summary,
and the calls of git are those that the recorded invocations spell out, in order. -/
theorem replay_standsIn (r : Replayer) (es : List Event) (t : Recorder) (g : Git)
    (hnul : ∀ e ∈ es, ∀ s ∈ r.texts e, Text.hasNul s = false)
    (htime : ∀ e ∈ es, ∃ m, r.anchor.resolve e.time = .ok m)
    (hnew : t.calls = []) (hcheckout : "checkout" ∉ t.failing)
    (hidle : g.ran = []) (hb : g.blocked = none)
    (hs : agrees g.script (t.verdicts (r.replay es t).tool.calls) = true) :
    (∃ total, (r.replay es g).result = .ok total ∧ (r.replay es t).result = .ok total) ∧
      (r.replay es g).reports.map (·.1) = es ∧
      (r.replay es g).reports.map (fun er => (er.1, er.2.outline)) =
        (r.replay es t).reports.map (fun er => (er.1, er.2.outline)) ∧
      (r.replay es g).tool.ran.map (·.call) =
        (r.replay es t).tool.calls.flatMap (·.expansion) := by
  have hnone : ∀ e ∈ es, (r.texts e).any Text.hasNul = false := fun e he =>
    List.any_eq_false.2 fun s hs => by rw [hnul e he s hs]; simp
  obtain ⟨total, is, hresult, hfollows, hgit⟩ := replayOnto_standsIn hnone htime {} t hcheckout
  have hcalls : (r.replay es t).tool.calls = is := by
    have heq := hfollows.calls
    rw [hnew, List.nil_append] at heq
    exact heq
  rw [hcalls] at hs ⊢
  obtain ⟨hok, hreports, hran⟩ := hgit g hb hs
  rw [hidle, List.map_nil, List.nil_append] at hran
  exact ⟨⟨total, hok, hresult⟩, Replayer.events_of_result hok, hreports, hran⟩

/-- A new branch, a path that is missing, an empty deletion, a merge and a tag, all foretold. -/
theorem replay_standsIn_sample :
    let r : Replayer :=
      ⟨⟨⟨2025, 10, 18, by decide⟩, ⟨9, 0, 0, by decide, by decide, by decide⟩⟩,
        ⟨⟨"Ada", "a@x"⟩, ⟨"Grace", "g@x"⟩⟩, ["history.toml"]⟩
    let es : List Event :=
      [⟨"side", .first, ⟨0, 9, 0⟩, .change "start" .everything⟩,
       ⟨"side", .second, ⟨0, 9, 0⟩, .change "more" (.listed ["a", "b"])⟩,
       ⟨"side", .first, ⟨0, 9, 0⟩, .deletion "less" ["b"]⟩,
       ⟨"main", .second, ⟨0, 9, 0⟩, .merge "side"⟩,
       ⟨"main", .first, ⟨0, 9, 0⟩, .tag "v1" "done"⟩]
    let t : Recorder := (({} : Recorder).withFiles ["a"]).withBranch "main"
    let failed : Reply := { exit := 1 }
    let g : Git :=
      { script := [failed, failed, {}, {}, {}, {}, {}, {}, failed, {}, {}, failed, failed] }
    (r.replay es g).reports.map (fun er => (er.1, er.2.outline)) =
        (r.replay es t).reports.map (fun er => (er.1, er.2.outline)) ∧
      (r.replay es g).tool.ran.map (·.call) =
        (r.replay es t).tool.calls.flatMap (·.expansion) ∧
      (r.replay es g).tool.ran.length = 17 := by
  intro r es t failed g
  have htime : ∀ e ∈ es, ∃ m, r.anchor.resolve e.time = .ok m := by
    intro e he
    have hnine : e.time = ⟨0, 9, 0⟩ := by revert e; decide
    exact ⟨r.anchor.start, by rw [hnine]; rfl⟩
  obtain ⟨-, -, hreports, hcalls⟩ :=
    replay_standsIn r es t g (by decide) htime rfl (by decide) rfl rfl (by decide +kernel)
  exact ⟨hreports, hcalls, by decide +kernel⟩

end Git

end Backdate
