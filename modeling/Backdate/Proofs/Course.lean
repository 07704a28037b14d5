import Backdate.Proofs.Conversations

/-!
# The course of an event on git

`Course r e g ps res` lists all that can come of an event, from its moment to
the process that writes history. `does_apply` shows that the list is complete;
what holds of every event on git is then read off its six cases.

`replayOnto_ran`: the processes of a replay are those of its episodes, in order.
-/

namespace Backdate

open Calendar

/-- The call by which an event writes history. -/
def Event.writingCall (e : Event) (stamp : Stamp) : Call :=
  match e.action with
  | .change message _ => .commit message stamp true
  | .deletion message _ => .commit message stamp false
  | .merge source => .merge source (mergeMessage source e.branch) stamp
  | .tag name message => .tag name message stamp

namespace Git

variable {r : Replayer} {e : Event}

theorem logs_performAll (ops : List Operation) :
    Logs (Operation.performAll ops : Act Git (List String)) := by
  induction ops with
  | nil => exact logs_pure _
  | cons op ops ih => exact logs_bind (logs_perform op) fun _ => logs_bind ih fun _ => logs_pure _

/-- Operations in turn keep to their calls. -/
theorem does_performAll {ops : List Operation} {g g' : Git} {ps : List Process}
    {res : Except Fault (List String)} (h : Does (Operation.performAll ops) g ps res g') :
    Within g (ops.flatMap calls) ps res := by
  induction ops generalizing g g' ps res with
  | nil =>
    obtain ⟨rfl, rfl⟩ := does_pure h
    exact within_ok (by simp)
  | cons op ops ih =>
    rw [List.flatMap_cons]
    have hleft : ∀ c ∈ calls op, c ∈ calls op ++ ops.flatMap calls :=
      fun c hc => List.mem_append_left _ hc
    have hright : ∀ c ∈ ops.flatMap calls, c ∈ calls op ++ ops.flatMap calls :=
      fun c hc => List.mem_append_right _ hc
    rcases does_bind h (logs_perform op) (fun _ => logs_bind (logs_performAll ops) fun _ =>
        logs_pure _) with ⟨why, ho, rfl⟩ | ⟨outcome, qs, g₁, rs, ho, hrs, rfl⟩
    · exact ((does_perform ho).error).mono hleft
    have hfirst := ((does_perform ho).mono hleft).1
    rcases does_bind hrs (logs_performAll ops) (fun _ => logs_pure _) with
      ⟨why, hr, rfl⟩ | ⟨rest, ts, g₂, us, hr, hus, rfl⟩
    · exact Within.after ho.ran.blocked hfirst ((ih hr).mono hright)
    · obtain ⟨rfl, rfl⟩ := does_pure hus
      rw [List.append_nil]
      exact Within.after ho.ran.blocked hfirst (within_ok ((ih hr).mono hright).1)

/-! ## Writing -/

/-- **History is written by one process**, and its reply is the outcome. What may follow it undoes
a merge. -/
theorem does_writing {stamp : Stamp} {g g' : Git} {ps : List Process} {res : Except Fault Outcome}
    (h : Does (e.writing stamp).perform g ps res g') :
    (∃ why, ps = [] ∧ res = .error why) ∨
      ∃ reply rest o, ps = ⟨e.writingCall stamp, reply⟩ :: rest ∧ res = .ok o ∧
        o.isSuccess = reply.succeeded ∧ ∀ p ∈ rest, p.call = .abort := by
  have hone : ∀ step c, Does (run step c) g ps res g' → (∃ why, ps = [] ∧ res = .error why) ∨
      ∃ reply rest o, ps = ⟨c, reply⟩ :: rest ∧ res = .ok o ∧ o.isSuccess = reply.succeeded ∧
        ∀ p ∈ rest, p.call = .abort := by
    intro step c h
    rcases does_run h with ⟨reply, rfl, rfl⟩ | ⟨why, rfl, rfl, -⟩
    · exact .inr ⟨reply, [], _, rfl, rfl, reply.isSuccess_outcome step, by simp⟩
    · exact .inl ⟨why, rfl, rfl⟩
  rcases e with ⟨branch, author, time, action⟩
  cases action with
  | change message paths => exact hone "commit" _ h
  | deletion message paths => exact hone "commit" _ h
  | tag name message => exact hone "tag" _ h
  | merge source =>
    cases does_merge h with
    | merged hok => exact .inr ⟨_, [], _, rfl, rfl, hok.symm, by simp⟩
    | refused hno _ => exact .inr ⟨_, [], _, rfl, rfl, hno.symm, by simp⟩
    | undone hno _ => exact .inr ⟨_, _, _, rfl, rfl, hno.symm, by simp⟩
    | fault _ => exact .inl ⟨_, rfl, rfl⟩

/-! ## The whole event -/

/-- **All that can come of an event**, in order: its time has no moment; its branch cannot be asked
for; git does not go there; a preparation does not start; the writing does not start; or history
is written, or refused. -/
inductive Course (r : Replayer) (e : Event) (g : Git) : List Process → Except Fault Report → Prop
  | unresolved {why : Anchor.Unresolved} (hm : r.anchor.resolve e.time = .error why) :
    Course r e g [] (.error (.unresolved why))
  | lost {m : Moment} {ps : List Process} {why : Fault} {g' : Git}
      (hm : r.anchor.resolve e.time = .ok m) (hs : Does (switch e.branch) g ps (.error why) g') :
    Course r e g ps (.error why)
  | barred {m : Moment} {ps : List Process} {o : Outcome} {g' : Git}
      (hm : r.anchor.resolve e.time = .ok m) (hs : Does (switch e.branch) g ps (.ok o) g')
      (ho : o.isSuccess = false) :
    Course r e g ps (.ok (e.report m o []))
  | unprepared {m : Moment} {ps qs : List Process} {why : Fault} {g₁ g' : Git}
      (hm : r.anchor.resolve e.time = .ok m) (hs : Does (switch e.branch) g ps (.ok .success) g₁)
      (hp : Does (Operation.performAll (r.preparations e)) g₁ qs (.error why) g') :
    Course r e g (ps ++ qs) (.error why)
  | unwritten {m : Moment} {ps qs : List Process} {warnings : List String} {why : Fault}
      {g₁ g₂ g' : Git} (hm : r.anchor.resolve e.time = .ok m)
      (hs : Does (switch e.branch) g ps (.ok .success) g₁)
      (hp : Does (Operation.performAll (r.preparations e)) g₁ qs (.ok warnings) g₂)
      (hw : Does (e.writing (r.stamp e.author m)).perform g₂ [] (.error why) g') :
    Course r e g (ps ++ qs) (.error why)
  | written {m : Moment} {ps qs ws : List Process} {warnings : List String} {o : Outcome}
      {g₁ g₂ g' : Git} (hm : r.anchor.resolve e.time = .ok m)
      (hs : Does (switch e.branch) g ps (.ok .success) g₁)
      (hp : Does (Operation.performAll (r.preparations e)) g₁ qs (.ok warnings) g₂)
      (hw : Does (e.writing (r.stamp e.author m)).perform g₂ ws (.ok o) g') :
    Course r e g (ps ++ (qs ++ ws)) (.ok (e.report m o warnings))

theorem logs_resolve (r : Replayer) (t : EventTime) : Logs (r.resolve t) := by
  unfold Replayer.resolve
  cases r.anchor.resolve t
  · exact logs_throw _
  · exact logs_pure _

theorem logs_onBranch (r : Replayer) (e : Event) (m : Moment) :
    Logs (r.onBranch e m : Act Git Report) :=
  logs_bind (logs_performAll _) fun _ => logs_bind (logs_perform _) fun _ => logs_pure _

theorem logs_afterSwitch (r : Replayer) (e : Event) (m : Moment) (o : Outcome) :
    Logs (if o.isSuccess then r.onBranch e m else pure (e.report m o [])) :=
  logs_ite (logs_onBranch r e m) (logs_pure _)

theorem logs_event (r : Replayer) (e : Event) : Logs (r.perform e : Act Git Report) := by
  rw [Replayer.perform_eq]
  exact logs_bind (logs_resolve r e.time) fun m =>
    logs_bind (logs_switch e.branch) fun o => logs_afterSwitch r e m o

theorem does_event {g g' : Git} {ps : List Process} {res : Except Fault Report}
    (h : Does (r.perform e) g ps res g') : Course r e g ps res := by
  rw [Replayer.perform_eq] at h
  unfold Replayer.resolve at h
  cases hm : r.anchor.resolve e.time with
  | error why =>
    rw [hm] at h
    obtain ⟨rfl, rfl⟩ := Prod.mk.inj h.run
    rw [h.ran.unique (Ran.idle rfl rfl rfl)]
    exact .unresolved hm
  | ok m =>
    rw [hm] at h
    simp only [pure_bind] at h
    rcases does_bind h (logs_switch e.branch) (logs_afterSwitch r e m) with
      ⟨why, hs, rfl⟩ | ⟨o, sw, g₁, rest, hs, hrest, rfl⟩
    · exact .lost hm hs
    -- from here on git is on the branch, or the event is over
    cases o with
    | failure step detail =>
      obtain ⟨rfl, rfl⟩ := does_pure hrest
      rw [List.append_nil]; exact .barred hm hs rfl
    | success =>
      rcases does_bind hrest (logs_performAll _) (fun _ =>
          logs_bind (logs_perform _) fun _ => logs_pure _) with
        ⟨why, hp, rfl⟩ | ⟨warnings, qs, g₂, us, hp, hus, rfl⟩
      · exact .unprepared hm hs hp
      rcases does_bind hus (logs_perform _) (fun _ => logs_pure _) with
        ⟨why, hw, rfl⟩ | ⟨outcome, ws, g₃, vs, hw, hvs, rfl⟩
      · rcases does_writing hw with ⟨_, rfl, -⟩ | ⟨_, _, _, -, hno, -⟩
        · rw [List.append_nil]; exact .unwritten hm hs hp hw
        · cases hno
      · obtain ⟨rfl, rfl⟩ := does_pure hvs
        rw [List.append_nil]; exact .written hm hs hp hw

theorem logs_noted (report : Report) : Logs (Replayer.noted report) := by
  unfold Replayer.noted
  cases report.outcome.describe with
  | none => exact logs_pure _
  | some line => exact fun _ => ⟨[], Ran.idle rfl rfl rfl⟩

theorem logs_apply (r : Replayer) (e : Event) : Logs (r.apply e : Act Git Report) := by
  rw [Replayer.apply_eq]
  exact logs_bind (logs_event r e) logs_noted

/-- **The list is complete.** The note that is kept of a failure runs nothing. -/
theorem does_apply {g g' : Git} {ps : List Process} {res : Except Fault Report}
    (h : Does (r.apply e) g ps res g') : Course r e g ps res := by
  rw [Replayer.apply_eq] at h
  rcases does_bind h (logs_event r e) logs_noted with
    ⟨why, hp, rfl⟩ | ⟨report, qs, g₁, rs, hp, hrs, rfl⟩
  · exact does_event hp
  · unfold Replayer.noted at hrs
    cases hd : report.outcome.describe <;> rw [hd] at hrs
    · obtain ⟨rfl, rfl⟩ := does_pure hrs
      rw [List.append_nil]; exact does_event hp
    · obtain ⟨rfl, rfl⟩ := Prod.mk.inj hrs.run
      rw [hrs.ran.unique (Ran.idle rfl rfl rfl), List.append_nil]
      exact does_event hp

/-- The processes of an episode. -/
def processes (ep : Episode Git) : List Process := ep.after.ran.drop ep.before.ran.length

theorem Does.processes_eq {x : Act Git Report} {g g' : Git} {ps : List Process}
    {res : Except Fault Report} (h : Does x g ps res g') : processes ⟨e, g, res, g'⟩ = ps := by
  unfold processes
  rw [h.ran.ran, List.drop_left]

theorem does_episode (r : Replayer) (e : Event) (g : Git) :
    Does (r.apply e) g (processes (r.episode e g)) (r.episode e g).result (r.episode e g).after := by
  obtain ⟨ps, hdoes⟩ := (logs_apply r e).does g
  have hps : processes (r.episode e g) = ps := hdoes.processes_eq
  rw [hps]; exact hdoes

theorem course_episode (r : Replayer) (e : Event) (g : Git) :
    Course r e g (processes (r.episode e g)) (r.episode e g).result :=
  does_apply (does_episode r e g)

/-- Every event of a replay takes one of the courses, from where the events before it left git. -/
theorem course_of_mem {es : List Event} {g : Git} {ep : Episode Git} (h : ep ∈ r.episodes es g) :
    Does (r.apply ep.event) ep.before (processes ep) ep.result ep.after ∧
      Course r ep.event ep.before (processes ep) ep.result := by
  have heq := (Replayer.mem_episodes h).2
  have hdoes : Does (r.apply ep.event) ep.before (processes ep) ep.result ep.after := by
    rw [heq]; exact does_episode r ep.event ep.before
  exact ⟨hdoes, does_apply hdoes⟩

/-- **A replay runs the processes of its episodes**, in order. -/
theorem replayOnto_ran (r : Replayer) (sm : Summary) (es : List Event) (g : Git) :
    (r.replayOnto sm es g).tool.ran = g.ran ++ (r.episodes es g).flatMap processes := by
  have hadds : ∀ e (g : Git), g.ran <+: ((r.apply e).run g).2.ran := by
    intro e g
    obtain ⟨ps, hps⟩ := logs_apply r e g
    exact ⟨ps, hps.ran.symm⟩
  exact Replayer.replayOnto_log Git.ran hadds sm es g

end Git

end Backdate
