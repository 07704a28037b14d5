import Backdate.Proofs.Course

/-!
# Branch discipline

Whatever git replies, an event writes history at most once and only on its own
branch (`replay_disciplined`).

* The processes of an event are those of the switch, then the preparations, then
  the writing; `Course.spine` says so in one form for all courses.
* `split_unique` finds the writing process, or the one that creates a branch,
  among them.
-/

namespace Backdate

namespace Call

/-- The git command of a call. -/
def command (c : Call) : String := c.args.headD ""

/-- Whether a call writes history: a commit, a tag, or a merge other than the undoing of one. -/
def writesHistory (c : Call) : Bool :=
  c.command == "commit" || c.command == "tag" ||
    (c.command == "merge" && c.args != ["merge", "--abort"])

/-- Whether a call only gets the index and the working tree ready. -/
def prepares (c : Call) : Bool := c.command == "add" || c.command == "reset" || c.command == "rm"

theorem not_writesHistory_of_prepares {c : Call} (h : c.prepares = true) :
    c.writesHistory = false ∧ c.command ≠ "checkout" := by
  simp only [prepares, Bool.or_eq_true, beq_iff_eq] at h
  rcases h with (h | h) | h <;> simp [writesHistory, h]

theorem checkout_ne_create (branch : String) : checkout branch ≠ create branch := by
  intro h
  simp only [checkout, create, Call.mk.injEq, List.cons.injEq, and_true, true_and] at h
  exact absurd (h.1.symm.trans h.2.symm) (by decide)

theorem verify_ne_create (branch : String) : verify branch ≠ create branch := by
  simp [verify, create]

end Call

/-- What occurs once in a list stands at one place in it. -/
theorem split_unique {α : Type} {P : α → Prop} {xs ys before after : List α} {w p : α}
    (h : xs ++ w :: ys = before ++ p :: after) (hxs : ∀ x ∈ xs, ¬ P x) (hys : ∀ y ∈ ys, ¬ P y)
    (hp : P p) : before = xs ∧ p = w := by
  induction xs generalizing before with
  | nil =>
    cases before with
    | nil => exact ⟨rfl, (List.cons.inj h).1.symm⟩
    | cons b before =>
      have hmem : p ∈ ys := by
        rw [(List.cons.inj h).2]; simp
      exact absurd hp (hys p hmem)
  | cons x xs ih =>
    cases before with
    | nil =>
      have heq : x = p := (List.cons.inj h).1
      exact absurd (heq ▸ hp) (hxs x List.mem_cons_self)
    | cons b before =>
      obtain ⟨hb, hrest⟩ := List.cons.inj h
      obtain ⟨rfl, hw⟩ := ih hrest fun x hx => hxs x (List.mem_cons_of_mem _ hx)
      exact ⟨by rw [hb], hw⟩

namespace Git

variable {r : Replayer} {e : Event} {g : Git}

/-- **What is asked of an event on git**, where `ps` are its processes and `res` is what came of it:
it writes history at most `once`; if it does, git has gone to the branch of the event and has
stayed there; the branch is created only right after git neither went to it nor knew it; if the
switch fails, nothing else is tried and the report tells of the switch alone; if it succeeds, a
report comes with the call that writes; and a report is a success exactly if that was one. -/
structure Disciplined (r : Replayer) (e : Event) (g : Git) (ps : List Process)
    (res : Except Fault Report) : Prop where
  once : (ps.filter (·.call.writesHistory)).length ≤ 1
  onBranch : ∀ before p after, ps = before ++ p :: after → p.call.writesHistory = true →
    ∃ earlier q between, before = earlier ++ q :: between ∧
      (q.call = .checkout e.branch ∨ q.call = .create e.branch) ∧ q.reply.succeeded = true ∧
      ∀ b ∈ between, b.call.command ≠ "checkout"
  creation : ∀ before p after, ps = before ++ p :: after → p.call = .create e.branch →
    ∃ earlier tried known, before = earlier ++ [tried, known] ∧
      tried.call = .checkout e.branch ∧ tried.reply.succeeded = false ∧
      known.call = .verify e.branch ∧ known.reply.succeeded = false
  skipped : ((switch e.branch).run g).1 ≠ .ok .success →
    (∀ p ∈ ps, p.call.command ∉ ["add", "reset", "rm", "commit", "merge", "tag"]) ∧
      ∀ report, res = .ok report →
        ((switch e.branch).run g).1 = .ok report.outcome ∧ report.warnings = []
  written : ((switch e.branch).run g).1 = .ok .success → ∀ report, res = .ok report →
    ∃ p ∈ ps, p.call = e.writingCall (r.stamp e.author report.timestamp)
  verdict : ∀ report, res = .ok report →
    (report.succeeded = true ↔
      ∃ p ∈ ps, p.call.writesHistory = true ∧ p.reply.succeeded = true)

/-! ## The three parts of an event -/

/-- A switch only ever looks for its branch, goes there, or creates it. -/
theorem Switching.calls {branch : String} {ps : List Process} {res : Except Fault Outcome}
    (h : Switching g branch ps res) :
    ∀ p ∈ ps, p.call.writesHistory = false ∧
      p.call.command ∉ ["add", "reset", "rm", "commit", "merge", "tag"] := by
  have hcalls : ∀ c ∈ [Call.checkout branch, .verify branch, .create branch],
      c.writesHistory = false ∧ c.command ∉ ["add", "reset", "rm", "commit", "merge", "tag"] := by
    simp [Call.writesHistory, Call.command, Call.checkout, Call.verify, Call.create]
  exact fun p hp => hcalls p.call (h.within.1 p hp)

/-- A switch that succeeds ends with the process that took git to the branch. -/
theorem Switching.arrived {branch : String} {ps : List Process}
    (h : Switching g branch ps (.ok .success)) :
    ∃ earlier q, ps = earlier ++ [q] ∧ (q.call = .checkout branch ∨ q.call = .create branch) ∧
      q.reply.succeeded = true := by
  generalize hres : (Except.ok Outcome.success : Except Fault Outcome) = res at h
  cases h with
  | @there reply hok => exact ⟨[], _, rfl, .inl rfl, hok⟩
  | stuck _ _ => cases hres
  | @created reply known made _ _ =>
    have hmade : made.succeeded = true := by
      rw [← made.isSuccess_outcome "checkout -b", ← Except.ok.inj hres]; rfl
    exact ⟨[⟨.checkout branch, reply⟩, ⟨.verify branch, known⟩], _, rfl, .inr rfl, hmade⟩
  | fault _ => cases hres

/-- A branch is created only after git neither went to it nor knew it. -/
theorem Switching.creation {branch : String} {ps : List Process} {res : Except Fault Outcome}
    (h : Switching g branch ps res) :
    (∀ p ∈ ps, p.call ≠ .create branch) ∨
      ∃ tried known made : Process, ps = [tried, known] ++ [made] ∧
        (tried.call = .checkout branch ∧ tried.reply.succeeded = false) ∧
        (known.call = .verify branch ∧ known.reply.succeeded = false) := by
  have hcheckout := Call.checkout_ne_create branch
  have hverify := Call.verify_ne_create branch
  cases h with
  | there _ => left; simpa using hcheckout
  | stuck _ _ => left; simpa using ⟨hcheckout, hverify⟩
  | created hno hk => exact .inr ⟨_, _, _, rfl, ⟨rfl, hno⟩, rfl, hk⟩
  | fault _ => left; simp

theorem prepares_of_mem_calls {op : Operation} {c : Call} (hop : op ∈ r.preparations e)
    (hc : c ∈ calls op) : c.prepares = true := by
  have hprepares := r.prepares_preparations e op hop
  cases op with
  | stage paths =>
    obtain ⟨path, -, rfl⟩ := List.mem_map.1 hc
    simp [Call.prepares, Call.command, Call.add]
  | stageAllExcept excluded =>
    rcases List.mem_cons.1 hc with rfl | hc
    · decide
    · obtain ⟨path, -, rfl⟩ := List.mem_map.1 hc
      simp [Call.prepares, Call.command, Call.reset]
  | remove path =>
    cases List.mem_singleton.1 hc
    simp [Call.prepares, Call.command, Call.remove]
  | switch branch => cases hprepares
  | commit message stamp allowEmpty => cases hprepares
  | merge source message stamp => cases hprepares
  | tag name message stamp => cases hprepares

/-- Preparations only ever stage, unstage and remove. -/
theorem prepares_of_does {g' : Git} {ps : List Process} {res : Except Fault (List String)}
    (h : Does (Operation.performAll (r.preparations e)) g ps res g') :
    ∀ p ∈ ps, p.call.prepares = true := by
  intro p hp
  obtain ⟨op, hop, hc⟩ := List.mem_flatMap.1 ((does_performAll h).1 p hp)
  exact prepares_of_mem_calls hop hc

theorem writesHistory_writingCall (e : Event) (stamp : Stamp) :
    (e.writingCall stamp).writesHistory = true := by
  unfold Event.writingCall
  cases e.action <;>
    simp [Call.writesHistory, Call.command, Call.commit, Call.merge, Call.tag]

/-- **The processes of an event in one form**: some that look for its branch, some that prepare, and
some that write. Those that write come after a switch that succeeded. -/
theorem Course.spine {ps : List Process} {res : Except Fault Report} (h : Course r e g ps res) :
    ∃ sw qs ws, ps = sw ++ (qs ++ ws) ∧
      (sw = [] ∨ ∃ sres, Switching g e.branch sw sres) ∧
      (∀ p ∈ qs, p.call.prepares = true) ∧
      (ws = [] ∨ ∃ w rest, ws = w :: rest ∧ w.call.writesHistory = true ∧
        (∀ p ∈ rest, p.call = .abort) ∧ Switching g e.branch sw (.ok .success)) := by
  cases h with
  | unresolved _ => exact ⟨[], [], [], rfl, .inl rfl, by simp, .inl rfl⟩
  | lost _ hs =>
    exact ⟨ps, [], [], by simp, .inr ⟨_, does_switch hs⟩, by simp, .inl rfl⟩
  | barred _ hs _ =>
    exact ⟨ps, [], [], by simp, .inr ⟨_, does_switch hs⟩, by simp, .inl rfl⟩
  | @unprepared _ sw qs _ _ _ _ hs hp =>
    exact ⟨sw, qs, [], by simp, .inr ⟨_, does_switch hs⟩, prepares_of_does hp, .inl rfl⟩
  | @unwritten _ sw qs _ _ _ _ _ _ hs hp _ =>
    exact ⟨sw, qs, [], by simp, .inr ⟨_, does_switch hs⟩, prepares_of_does hp, .inl rfl⟩
  | @written _ sw qs ws _ _ _ _ _ _ hs hp hw =>
    refine ⟨sw, qs, ws, rfl, .inr ⟨_, does_switch hs⟩, prepares_of_does hp, .inr ?_⟩
    rcases does_writing hw with ⟨_, -, hno⟩ | ⟨reply, rest, o, rfl, -, -, hrest⟩
    · cases hno
    · exact ⟨_, rest, rfl, writesHistory_writingCall e _, hrest, does_switch hs⟩

/-! ## What holds of every event -/

theorem not_writesHistory_abort : Call.abort.writesHistory = false := by decide

/-- What the parts of an event may hold besides the process that writes. -/
theorem silent_of_spine {sw qs : List Process} (hsw : sw = [] ∨ ∃ sres, Switching g e.branch sw sres)
    (hqs : ∀ p ∈ qs, p.call.prepares = true) : ∀ p ∈ sw ++ qs, p.call.writesHistory = false := by
  intro p hp
  rcases List.mem_append.1 hp with hp | hp
  · rcases hsw with rfl | ⟨sres, hsw⟩
    · exact absurd hp List.not_mem_nil
    · exact (hsw.calls p hp).1
  · exact (Call.not_writesHistory_of_prepares (hqs p hp)).1

/-- Where history was asked for, the whole course was taken. -/
theorem Course.of_writes {ps : List Process} {p : Process} {res : Except Fault Report}
    (h : Course r e g ps res) (hp : p ∈ ps) (hw : p.call.writesHistory = true) :
    ∃ m sw qs ws warnings o g₁ g₂ g', ps = sw ++ (qs ++ ws) ∧ res = .ok (e.report m o warnings) ∧
      Does (switch e.branch) g sw (.ok .success) g₁ ∧
      Does (Operation.performAll (r.preparations e)) g₁ qs (.ok warnings) g₂ ∧
      Does (e.writing (r.stamp e.author m)).perform g₂ ws (.ok o) g' := by
  -- neither looking for the branch nor preparing writes anything
  have hswitch : ∀ {sw sres}, Switching g e.branch sw sres → p ∉ sw := fun hs hmem => by
    rw [(hs.calls p hmem).1] at hw; cases hw
  have hprepare : ∀ {sw sres qs}, Switching g e.branch sw sres →
      (∀ p ∈ qs, p.call.prepares = true) → p ∉ sw ++ qs := fun hs hqs hmem => by
    rw [silent_of_spine (.inr ⟨_, hs⟩) hqs p hmem] at hw; cases hw
  cases h with
  | unresolved _ => exact absurd hp List.not_mem_nil
  | lost _ hs => exact absurd hp (hswitch (does_switch hs))
  | barred _ hs _ => exact absurd hp (hswitch (does_switch hs))
  | unprepared _ hs hq => exact absurd hp (hprepare (does_switch hs) (prepares_of_does hq))
  | unwritten _ hs hq _ => exact absurd hp (hprepare (does_switch hs) (prepares_of_does hq))
  | written _ hs hq hws => exact ⟨_, _, _, _, _, _, _, _, _, rfl, rfl, hs, hq, hws⟩

theorem Course.once {ps : List Process} {res : Except Fault Report} (h : Course r e g ps res) :
    (ps.filter (·.call.writesHistory)).length ≤ 1 := by
  obtain ⟨sw, qs, ws, rfl, hsw, hqs, hws⟩ := h.spine
  have hquiet : ∀ p ∈ sw ++ qs, ¬ p.call.writesHistory = true := fun p hp => by
    rw [silent_of_spine hsw hqs p hp]; simp
  rw [← List.append_assoc, List.filter_append, List.filter_eq_nil_iff.2 hquiet, List.nil_append]
  rcases hws with rfl | ⟨w, rest, rfl, hw, hrest, -⟩
  · exact Nat.zero_le 1
  · have hnone : ∀ p ∈ rest, ¬ p.call.writesHistory = true := fun p hp => by
      rw [hrest p hp, not_writesHistory_abort]; simp
    rw [List.filter_cons, if_pos hw, List.filter_eq_nil_iff.2 hnone]
    exact Nat.le_refl 1

theorem Course.onBranch {ps before after : List Process} {p : Process} {res : Except Fault Report}
    (h : Course r e g ps res) (hps : ps = before ++ p :: after) (hp : p.call.writesHistory = true) :
    ∃ earlier q between, before = earlier ++ q :: between ∧
      (q.call = .checkout e.branch ∨ q.call = .create e.branch) ∧ q.reply.succeeded = true ∧
      ∀ b ∈ between, b.call.command ≠ "checkout" := by
  obtain ⟨sw, qs, ws, rfl, hsw, hqs, hws⟩ := h.spine
  have hquiet : ∀ p ∈ sw ++ qs, ¬ p.call.writesHistory = true := fun p hp => by
    rw [silent_of_spine hsw hqs p hp]; simp
  rcases hws with rfl | ⟨w, rest, rfl, hw, hrest, hgone⟩
  · rw [List.append_nil] at hps
    exact absurd hp (hquiet p (by rw [hps]; simp))
  · have hnone : ∀ p ∈ rest, ¬ p.call.writesHistory = true := fun p hp => by
      rw [hrest p hp, not_writesHistory_abort]; simp
    rw [← List.append_assoc] at hps
    -- the writing process is the one that the spine names, so the switch ends right before `qs`
    obtain ⟨rfl, rfl⟩ := split_unique hps hquiet hnone hp
    obtain ⟨earlier, q, rfl, hq, hok⟩ := hgone.arrived
    refine ⟨earlier, q, qs, by simp, hq, hok, fun b hb => ?_⟩
    exact (Call.not_writesHistory_of_prepares (hqs b hb)).2

/-- Only a switch goes to a branch. -/
theorem ne_create_of_spine {qs ws : List Process} (hqs : ∀ p ∈ qs, p.call.prepares = true)
    (hws : ws = [] ∨ ∃ w rest, ws = w :: rest ∧ w.call.writesHistory = true ∧
      ∀ p ∈ rest, p.call = .abort) (branch : String) :
    ∀ p ∈ qs ++ ws, p.call ≠ .create branch := by
  have hcreate : (Call.create branch).command = "checkout" := rfl
  intro p hp heq
  rcases List.mem_append.1 hp with hp | hp
  · exact (Call.not_writesHistory_of_prepares (hqs p hp)).2 (heq ▸ hcreate)
  · rcases hws with rfl | ⟨w, rest, rfl, hw, hrest⟩
    · exact absurd hp List.not_mem_nil
    rcases List.mem_cons.1 hp with rfl | hp
    · rw [heq] at hw
      simp [Call.writesHistory, hcreate] at hw
    · rw [hrest p hp] at heq
      simp [Call.abort, Call.create] at heq

theorem Course.creation {ps before after : List Process} {p : Process} {res : Except Fault Report}
    (h : Course r e g ps res) (hps : ps = before ++ p :: after) (hp : p.call = .create e.branch) :
    ∃ earlier tried known, before = earlier ++ [tried, known] ∧
      tried.call = .checkout e.branch ∧ tried.reply.succeeded = false ∧
      known.call = .verify e.branch ∧ known.reply.succeeded = false := by
  obtain ⟨sw, qs, ws, rfl, hsw, hqs, hws⟩ := h.spine
  have hlater : ∀ p ∈ qs ++ ws, ¬ p.call = .create e.branch := by
    refine ne_create_of_spine hqs (hws.imp_right ?_) e.branch
    rintro ⟨w, rest, hws, hw, hrest, -⟩
    exact ⟨w, rest, hws, hw, hrest⟩
  have hmem : p ∈ sw ++ (qs ++ ws) := by rw [hps]; simp
  rcases hsw with rfl | ⟨sres, hsw⟩
  · exact absurd hp (hlater p hmem)
  rcases hsw.creation with hnone | ⟨tried, known, made, rfl, htried, hknown⟩
  · rcases List.mem_append.1 hmem with hmem | hmem
    · exact absurd hp (hnone p hmem)
    · exact absurd hp (hlater p hmem)
  · -- the creation is the third process, and the only one of its kind
    have hfirst : ∀ q ∈ [tried, known], ¬ q.call = .create e.branch := by
      simp only [List.mem_cons, List.not_mem_nil, or_false]
      rintro q (rfl | rfl)
      · rw [htried.1]; exact Call.checkout_ne_create e.branch
      · rw [hknown.1]; exact Call.verify_ne_create e.branch
    rw [List.append_assoc, List.singleton_append] at hps
    obtain ⟨rfl, -⟩ :=
      split_unique (P := fun q : Process => q.call = .create e.branch) hps hfirst hlater hp
    exact ⟨[], tried, known, rfl, htried.1, htried.2, hknown.1, hknown.2⟩

theorem Course.skipped {ps : List Process} {res : Except Fault Report} (h : Course r e g ps res)
    (hno : ((switch e.branch).run g).1 ≠ .ok .success) :
    (∀ p ∈ ps, p.call.command ∉ ["add", "reset", "rm", "commit", "merge", "tag"]) ∧
      ∀ report, res = .ok report →
        ((switch e.branch).run g).1 = .ok report.outcome ∧ report.warnings = [] := by
  -- the courses that go past the switch are not taken
  have hgone : ∀ {sw g'}, ¬ Does (switch e.branch) g sw (.ok .success) g' :=
    fun hs => hno (by rw [hs.run])
  cases h with
  | unresolved _ => exact ⟨by simp, fun _ heq => by cases heq⟩
  | lost _ hs => exact ⟨fun p hp => ((does_switch hs).calls p hp).2, fun _ heq => by cases heq⟩
  | barred _ hs _ =>
    refine ⟨fun p hp => ((does_switch hs).calls p hp).2, fun _ heq => ?_⟩
    cases heq
    exact ⟨by rw [hs.run]; rfl, rfl⟩
  | unprepared _ hs _ => exact absurd hs hgone
  | unwritten _ hs _ _ => exact absurd hs hgone
  | written _ hs _ _ => exact absurd hs hgone

theorem Course.written_of_switch {ps : List Process} {report : Report}
    (h : Course r e g ps (.ok report)) (hok : ((switch e.branch).run g).1 = .ok .success) :
    ∃ p ∈ ps, p.call = e.writingCall (r.stamp e.author report.timestamp) := by
  cases h with
  | barred _ hs ho =>
    rw [hs.run] at hok
    cases hok; cases ho
  | @written m sw qs ws warnings o _ _ _ _ hs hp hw =>
    rcases does_writing hw with ⟨_, -, hno⟩ | ⟨reply, rest, _, rfl, -⟩
    · cases hno
    · have hmem : (⟨e.writingCall (r.stamp e.author m), reply⟩ : Process) ∈
          sw ++ (qs ++ ⟨e.writingCall (r.stamp e.author m), reply⟩ :: rest) := by simp
      exact ⟨_, hmem, rfl⟩

theorem Course.verdict {ps : List Process} {report : Report} (h : Course r e g ps (.ok report)) :
    report.succeeded = true ↔
      ∃ p ∈ ps, p.call.writesHistory = true ∧ p.reply.succeeded = true := by
  cases h with
  | barred _ hs ho =>
    refine ⟨fun hok => absurd (ho.symm.trans hok) (by decide), ?_⟩
    rintro ⟨p, hp, hw, -⟩
    exact absurd (((does_switch hs).calls p hp).1.symm.trans hw) (by decide)
  | @written m sw qs ws warnings o _ _ _ _ hs hp hw =>
    rcases does_writing hw with ⟨_, -, hno⟩ | ⟨reply, rest, _, rfl, heq, ho, hrest⟩
    · cases hno
    cases heq
    have hquiet := silent_of_spine (.inr ⟨_, does_switch hs⟩) (prepares_of_does hp)
    show o.isSuccess = true ↔ _
    rw [ho]
    constructor
    · intro hok
      have hmem : (⟨e.writingCall (r.stamp e.author m), reply⟩ : Process) ∈
          sw ++ (qs ++ ⟨e.writingCall (r.stamp e.author m), reply⟩ :: rest) := by simp
      exact ⟨_, hmem, writesHistory_writingCall e _, hok⟩
    · -- whatever else succeeded does not write
      rintro ⟨p, hmem, hwrites, hok⟩
      rw [← List.append_assoc] at hmem
      rcases List.mem_append.1 hmem with hmem | hmem
      · rw [hquiet p hmem] at hwrites; cases hwrites
      rcases List.mem_cons.1 hmem with rfl | hmem
      · exact hok
      · rw [hrest p hmem, not_writesHistory_abort] at hwrites; cases hwrites

/-- **History is written on the right branch, at most once per event.** Cut a replay into its
events: the processes and the reports of the replay are theirs, and each is disciplined, whatever
git replies to any of them. -/
theorem replay_disciplined (r : Replayer) (es : List Event) (g : Git) :
    (r.replay es g).tool.ran = g.ran ++ (r.episodes es g).flatMap processes ∧
      (r.replay es g).reports = (r.episodes es g).filterMap Episode.reported ∧
      ∀ ep ∈ r.episodes es g, Disciplined r ep.event ep.before (processes ep) ep.result := by
  refine ⟨replayOnto_ran r {} es g, Replayer.replayOnto_reports {} es g, fun ep hep => ?_⟩
  have hcourse := (course_of_mem hep).2
  exact {
    once := hcourse.once
    onBranch := fun _ _ _ => hcourse.onBranch
    creation := fun _ _ _ => hcourse.creation
    skipped := hcourse.skipped
    written := fun hok _ heq => (heq ▸ hcourse).written_of_switch hok
    verdict := fun _ heq => (heq ▸ hcourse).verdict }

end Git

end Backdate
