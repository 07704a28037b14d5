import Backdate.Replay.Run

/-!
# Events as operations

Whatever its kind, an event is a switch to its branch, then **preparations**
whose failures become warnings, then one operation that **writes** history and
whose outcome is the event's own.

* `perform_eq`: the four kinds of event in this one form;
* `apply_reported`: on every tool, a report is about its own event;
* `episodes`: a replay cut into its events, each with the tool before and after
  it; `mem_episodes` and `replayOnto_reports` tie them to the replay.
-/

namespace Backdate

open Calendar

variable {σ α β : Type}

/-- A place in a list with one more item at its end. -/
theorem split_snoc {xs before after : List α} {x y : α}
    (h : xs ++ [x] = before ++ y :: after) :
    (before = xs ∧ y = x ∧ after = []) ∨
      ∃ middle, after = middle ++ [x] ∧ xs = before ++ y :: middle := by
  rcases List.eq_nil_or_concat after with rfl | ⟨middle, z, rfl⟩
  · obtain ⟨hxs, hx⟩ := List.append_inj' h rfl
    exact .inl ⟨hxs.symm, (List.singleton_inj.1 hx).symm, rfl⟩
  · rw [List.concat_eq_append, ← List.cons_append, ← List.append_assoc] at h
    obtain ⟨hxs, hx⟩ := List.append_inj' h rfl
    obtain rfl := List.singleton_inj.1 hx
    exact .inr ⟨middle, List.concat_eq_append, hxs⟩

namespace Act

theorem run_pure (a : α) (s : σ) : (pure a : Act σ α).run s = (.ok a, s) := rfl

/-- A sequence goes on from where its first action leaves the state, or ends in its fault. -/
theorem run_bind (x : Act σ α) (f : α → Act σ β) (s : σ) :
    (x >>= f).run s = match x.run s with
      | (.ok a, t) => (f a).run t
      | (.error why, t) => (.error why, t) := by
  show (match x.run s with | (res, t) => (ExceptT.bindCont f res) t) = _
  rcases x.run s with ⟨res, t⟩
  cases res <;> rfl

/-- Every value that an action ends well with is as told. -/
def Yields (x : Act σ α) (P : α → Prop) : Prop := ∀ s a t, x.run s = (.ok a, t) → P a

theorem yields_true (x : Act σ α) : Yields x fun _ => True := fun _ _ _ _ => trivial

theorem yields_pure {P : α → Prop} {a : α} (h : P a) : Yields (pure a : Act σ α) P := by
  intro s b t hrun
  cases hrun; exact h

theorem yields_bind {x : Act σ α} {f : α → Act σ β} {P : α → Prop} {Q : β → Prop}
    (hx : Yields x P) (hf : ∀ a, P a → Yields (f a) Q) : Yields (x >>= f) Q := by
  intro s b t hrun
  rw [run_bind] at hrun
  rcases hxs : x.run s with ⟨why | a, s₁⟩ <;> rw [hxs] at hrun
  · cases hrun
  · exact hf a (hx s a s₁ hxs) s₁ b t hrun

end Act

/-! ## One form for all events -/

/-- What an event does before it writes history. Its failures are warnings. -/
def Replayer.preparations (r : Replayer) (e : Event) : List Operation :=
  match e.action with
  | .change _ .nothing => []
  | .change _ .everything => [.stageAllExcept r.excluded]
  | .change _ (.listed paths) => [.stage paths]
  | .deletion _ paths => paths.map .remove
  | .merge _ => []
  | .tag .. => []

/-- An operation that only gets the index and the working tree ready. -/
def Operation.prepares : Operation → Bool
  | .stage _ | .stageAllExcept _ | .remove _ => true
  | .switch _ | .commit .. | .merge .. | .tag .. => false

theorem Replayer.prepares_preparations (r : Replayer) (e : Event) :
    ∀ op ∈ r.preparations e, op.prepares = true := by
  intro op h
  unfold preparations at h
  split at h
  · exact absurd h List.not_mem_nil
  · rw [List.mem_singleton.1 h]; rfl
  · rw [List.mem_singleton.1 h]; rfl
  · obtain ⟨path, -, rfl⟩ := List.mem_map.1 h; rfl
  · exact absurd h List.not_mem_nil
  · exact absurd h List.not_mem_nil

/-- The operation by which an event writes history. -/
def Event.writing (e : Event) (stamp : Stamp) : Operation :=
  match e.action with
  | .change message _ => .commit message stamp true
  | .deletion message _ => .commit message stamp false
  | .merge source => .merge source (mergeMessage source e.branch) stamp
  | .tag name message => .tag name message stamp

/-- A report on an event, by its outcome and its warnings. -/
def Event.report (e : Event) (m : Moment) (outcome : Outcome) (warnings : List String) : Report :=
  ⟨e.kind, m, e.author, e.label, outcome, warnings⟩

theorem Outcome.length_describe_toList (o : Outcome) :
    o.describe.toList.length = if o.isSuccess then 0 else 1 := by
  cases o with
  | success => rfl
  | failure step detail => simp only [describe]; cases gist detail <;> rfl

/-- Performs operations in turn, and gives a line for each that failed. -/
def Operation.performAll [Tool σ] : List Operation → Act σ (List String)
  | [] => pure []
  | op :: ops => do
    let outcome ← op.perform
    let rest ← performAll ops
    return outcome.describe.toList ++ rest

namespace Replayer

theorem resolve_eq {r : Replayer} {time : EventTime} {m : Moment}
    (h : r.anchor.resolve time = .ok m) : (r.resolve time : Act σ Moment) = pure m := by
  unfold resolve; rw [h]

variable [Tool σ]

theorem removeEach_eq (paths : List String) :
    (removeEach paths : Act σ (List String)) = Operation.performAll (paths.map .remove) := by
  induction paths with
  | nil => rfl
  | cons path paths ih => simp only [removeEach, List.map_cons, Operation.performAll, ih]; rfl

/-- **Every event prepares, then writes.** -/
theorem act_eq (r : Replayer) (e : Event) (stamp : Stamp) :
    (r.act e stamp : Act σ _) = do
      let warnings ← Operation.performAll (r.preparations e)
      let outcome ← (e.writing stamp).perform
      return (outcome, warnings) := by
  rcases e with ⟨branch, author, time, action⟩
  cases action with
  | change message paths =>
    cases paths <;>
      simp only [act, preparations, Event.writing, Operation.performAll, bind_assoc, pure_bind,
        List.append_nil, stage] <;> rfl
  | deletion message paths =>
    simp only [act, preparations, Event.writing, removeEach_eq]; rfl
  | merge source =>
    simp only [act, preparations, Event.writing, Operation.performAll, pure_bind]; rfl
  | tag name message =>
    simp only [act, preparations, Event.writing, Operation.performAll, pure_bind]; rfl

/-- What an event does on its branch, and its report. -/
def onBranch (r : Replayer) (e : Event) (m : Moment) : Act σ Report := do
  let warnings ← Operation.performAll (r.preparations e)
  let outcome ← (e.writing (r.stamp e.author m)).perform
  return e.report m outcome warnings

/-- **An event in full**: its moment, its branch, its preparations, and what it writes. -/
theorem perform_eq (r : Replayer) (e : Event) :
    (r.perform e : Act σ Report) = do
      let m ← r.resolve e.time
      let switched ← (Operation.switch e.branch).perform
      if switched.isSuccess then r.onBranch e m else return e.report m switched [] := by
  unfold perform onBranch
  congr 1; funext m
  congr 1; funext switched
  cases switched.isSuccess
  · simp only [Bool.false_eq_true, if_false, pure_bind]; rfl
  · simp only [if_true, act_eq, bind_assoc, pure_bind]; rfl

/-- Keeps a note of a failure, and gives the report. -/
def noted (report : Report) : Act σ Report := do
  report.outcome.describe.elim (pure ⟨⟩) fun line =>
    modify (Tool.note ⟨.history, "[" ++ report.timestamp.text ++ "] " ++ line⟩)
  return report

theorem apply_eq (r : Replayer) (e : Event) :
    (r.apply e : Act σ Report) = r.perform e >>= noted := by
  unfold apply
  congr 1; funext report
  unfold noted
  cases report.outcome.describe <;> rfl

/-! ## What a report is about -/

section Reported

open Act

variable {r : Replayer} {e : Event} {s t : σ}

/-- Without a moment nothing is asked of the tool. -/
theorem apply_unresolved {why : Anchor.Unresolved} (hm : r.anchor.resolve e.time = .error why)
    (s : σ) : (r.apply e).run s = (.error (.unresolved why), s) := by
  unfold apply perform resolve
  rw [hm]; rfl

theorem yields_noted {P : Report → Prop} {report : Report} (h : P report) :
    Yields (noted report : Act σ Report) P :=
  yields_bind (yields_true _) fun _ _ => yields_pure h

/-- **A report is about its own event**, at the moment of the event. -/
theorem apply_reported {report : Report} (h : (r.apply e).run s = (.ok report, t)) :
    ∃ m outcome warnings, r.anchor.resolve e.time = .ok m ∧
      report = e.report m outcome warnings := by
  cases hm : r.anchor.resolve e.time with
  | error why => rw [apply_unresolved hm] at h; cases h
  | ok m =>
    have hyields : Yields (r.apply e : Act σ Report) fun report =>
        ∃ outcome warnings, report = e.report m outcome warnings := by
      rw [apply_eq, perform_eq, resolve_eq hm, pure_bind]
      refine yields_bind (yields_bind (yields_true _) fun switched _ => ?_) fun _ => yields_noted
      split
      · exact yields_bind (yields_true _) fun warnings _ =>
          yields_bind (yields_true _) fun outcome _ => yields_pure ⟨outcome, warnings, rfl⟩
      · exact yields_pure ⟨switched, [], rfl⟩
    obtain ⟨outcome, warnings, hreport⟩ := hyields s report t h
    exact ⟨m, outcome, warnings, rfl, hreport⟩

end Reported

end Replayer

/-! ## A replay event by event -/

/-- One event of a replay: the tool before it, what came of it, and the tool after it. -/
structure Episode (σ : Type) where
  event : Event
  before : σ
  result : Except Fault Report
  after : σ

/-- The event and its report, if it has one. -/
def Episode.reported (ep : Episode σ) : Option (Event × Report) :=
  ep.result.toOption.map (ep.event, ·)

namespace Replayer

variable [Tool σ] {r : Replayer} {e : Event} {es : List Event} {s t : σ} {sm : Summary}

/-- What comes of one event. -/
def episode (r : Replayer) (e : Event) (s : σ) : Episode σ :=
  ⟨e, s, ((r.apply e).run s).1, ((r.apply e).run s).2⟩

/-- The episodes of a replay, up to the fault that ends it. -/
def episodes (r : Replayer) : List Event → σ → List (Episode σ)
  | [], _ => []
  | e :: es, s =>
    r.episode e s :: if (r.episode e s).result.isOk then r.episodes es (r.episode e s).after else []

theorem episode_eq {res : Except Fault Report} (h : (r.apply e).run s = (res, t)) :
    r.episode e s = ⟨e, s, res, t⟩ := by
  unfold episode; rw [h]

theorem episodes_cons_ok {report : Report} (h : (r.apply e).run s = (.ok report, t)) :
    r.episodes (e :: es) s = ⟨e, s, .ok report, t⟩ :: r.episodes es t := by
  rw [episodes, episode_eq h]; rfl

theorem episodes_cons_error {why : Fault} (h : (r.apply e).run s = (.error why, t)) :
    r.episodes (e :: es) s = [⟨e, s, .error why, t⟩] := by
  rw [episodes, episode_eq h]; rfl

theorem replayOnto_cons_ok {report : Report} (h : (r.apply e).run s = (.ok report, t)) :
    r.replayOnto sm (e :: es) s =
      ⟨(e, report) :: (r.replayOnto (sm.record report) es t).reports,
        (r.replayOnto (sm.record report) es t).result,
        (r.replayOnto (sm.record report) es t).tool⟩ := by
  rw [replayOnto, h]

theorem replayOnto_cons_error {why : Fault} (h : (r.apply e).run s = (.error why, t)) :
    r.replayOnto sm (e :: es) s = ⟨[], .error why, t⟩ := by
  rw [replayOnto, h]

/-- An episode is an event of the replay applied to the tool before it. -/
theorem mem_episodes {ep : Episode σ} (h : ep ∈ r.episodes es s) :
    ep.event ∈ es ∧ ep = r.episode ep.event ep.before := by
  induction es generalizing s with
  | nil => exact absurd h List.not_mem_nil
  | cons e es ih =>
    rcases hap : (r.apply e).run s with ⟨_ | report, t⟩
    · rw [episodes_cons_error hap, List.mem_singleton] at h
      subst h; exact ⟨List.mem_cons_self, (episode_eq hap).symm⟩
    · rw [episodes_cons_ok hap] at h
      rcases List.mem_cons.1 h with h | h
      · subst h; exact ⟨List.mem_cons_self, (episode_eq hap).symm⟩
      · exact ⟨List.mem_cons_of_mem _ (ih h).1, (ih h).2⟩

/-- What every event keeps holds before each of them. -/
theorem before_of_kept {P : σ → Prop} (hs : P s)
    (hkept : ∀ e ∈ es, ∀ s, P s → P ((r.apply e).run s).2) :
    ∀ ep ∈ r.episodes es s, P ep.before := by
  induction es generalizing s with
  | nil => intro ep h; exact absurd h List.not_mem_nil
  | cons e es ih =>
    intro ep h
    have hnext := hkept e List.mem_cons_self s hs
    rcases hap : (r.apply e).run s with ⟨_ | report, t⟩ <;> rw [hap] at hnext
    · rw [episodes_cons_error hap, List.mem_singleton] at h
      subst h; exact hs
    · rw [episodes_cons_ok hap] at h
      rcases List.mem_cons.1 h with h | h
      · subst h; exact hs
      · exact ih hnext (fun e he => hkept e (List.mem_cons_of_mem _ he)) ep h

/-- What every event keeps holds of the tool that a replay leaves. -/
theorem tool_of_kept {P : σ → Prop} (hs : P s) (hkept : ∀ e s, P s → P ((r.apply e).run s).2)
    (sm : Summary) (es : List Event) : P (r.replayOnto sm es s).tool := by
  induction es generalizing sm s with
  | nil => exact hs
  | cons e es ih =>
    have hnext := hkept e s hs
    rcases hap : (r.apply e).run s with ⟨why | report, t⟩ <;> rw [hap] at hnext
    · rw [replayOnto_cons_error hap]; exact hnext
    · rw [replayOnto_cons_ok hap]; exact ih hnext (sm.record report)

/-- The episodes of a replay follow its events in order, as far as it comes. -/
theorem episodes_events (r : Replayer) (es : List Event) (s : σ) :
    (r.episodes es s).map (·.event) <+: es := by
  induction es generalizing s with
  | nil => exact List.nil_prefix
  | cons e es ih =>
    rcases hap : (r.apply e).run s with ⟨_ | report, t⟩
    · rw [episodes_cons_error hap]
      exact ⟨es, rfl⟩
    · rw [episodes_cons_ok hap, List.map_cons, List.prefix_cons_inj]
      exact ih t

/-- What events only ever add to is, after a replay, what each of its episodes added, in order. -/
theorem replayOnto_log {α : Type} (log : σ → List α)
    (hlog : ∀ e s, log s <+: log ((r.apply e).run s).2) (sm : Summary) (es : List Event) (s : σ) :
    log (r.replayOnto sm es s).tool =
      log s ++ (r.episodes es s).flatMap fun ep => (log ep.after).drop (log ep.before).length := by
  induction es generalizing sm s with
  | nil => exact (List.append_nil _).symm
  | cons e es ih =>
    obtain ⟨added, hadded⟩ := hlog e s
    rcases hap : (r.apply e).run s with ⟨why | report, t⟩ <;> rw [hap] at hadded
    · rw [replayOnto_cons_error hap, episodes_cons_error hap, List.flatMap_singleton]
      simp only [← hadded, List.drop_left]
    · rw [replayOnto_cons_ok hap, episodes_cons_ok hap, List.flatMap_cons]
      simp only [ih (sm.record report) t, ← hadded, List.drop_left, List.append_assoc]

/-- The reports of a replay are those of its episodes. -/
theorem replayOnto_reports (sm : Summary) (es : List Event) (s : σ) :
    (r.replayOnto sm es s).reports = (r.episodes es s).filterMap Episode.reported := by
  induction es generalizing sm s with
  | nil => rfl
  | cons e es ih =>
    rcases hap : (r.apply e).run s with ⟨_ | report, t⟩
    · rw [replayOnto_cons_error hap, episodes_cons_error hap]; rfl
    · rw [replayOnto_cons_ok hap, episodes_cons_ok hap]
      simp only [ih, List.filterMap_cons, Episode.reported, Except.toOption, Option.map_some]

/-- Each report of a replay is about the event that it stands beside. -/
theorem reported_of_mem {done : Event × Report} (h : done ∈ (r.replayOnto sm es s).reports) :
    ∃ m outcome warnings, r.anchor.resolve done.1.time = .ok m ∧
      done.2 = done.1.report m outcome warnings := by
  rw [replayOnto_reports] at h
  obtain ⟨ep, hep, hreported⟩ := List.mem_filterMap.1 h
  have hresult : ep.result = ((r.apply ep.event).run ep.before).1 := by
    rw [(mem_episodes hep).2]; rfl
  rcases hap : (r.apply ep.event).run ep.before with ⟨why | report, t⟩ <;> rw [hap] at hresult <;>
    rw [Episode.reported, hresult] at hreported
  · cases hreported
  · cases hreported
    exact apply_reported hap

/-- A replay that ends well has an episode with a report for every event. -/
theorem reported_of_result {total : Summary} (h : (r.replayOnto sm es s).result = .ok total) :
    ∀ e ∈ es, ∃ ep ∈ r.episodes es s, ep.event = e ∧ ∃ report, ep.result = .ok report := by
  induction es generalizing sm s with
  | nil => intro e he; exact absurd he List.not_mem_nil
  | cons e es ih =>
    rcases hap : (r.apply e).run s with ⟨why | report, t⟩
    · rw [replayOnto_cons_error hap] at h; simp at h
    · rw [replayOnto_cons_ok hap] at h
      rw [episodes_cons_ok hap]
      intro d hd
      rcases List.mem_cons.1 hd with rfl | hd
      · exact ⟨_, List.mem_cons_self, rfl, report, rfl⟩
      · obtain ⟨ep, hep, hrest⟩ := ih h d hd
        exact ⟨ep, List.mem_cons_of_mem _ hep, hrest⟩

/-- A replay that ends well has reported every event. -/
theorem events_of_result {total : Summary} (h : (r.replayOnto sm es s).result = .ok total) :
    (r.replayOnto sm es s).reports.map (·.1) = es := by
  induction es generalizing sm s with
  | nil => rfl
  | cons e es ih =>
    rcases hap : (r.apply e).run s with ⟨why | report, t⟩
    · rw [replayOnto_cons_error hap] at h; cases h
    · rw [replayOnto_cons_ok hap] at h ⊢
      rw [List.map_cons, ih h]

/-- A replay that ends well has an episode for every event, in order, each with its report. -/
theorem episodes_of_result {total : Summary} (h : (r.replayOnto sm es s).result = .ok total) :
    (r.episodes es s).map (·.event) = es ∧
      (r.episodes es s).map (·.result) =
        (r.replayOnto sm es s).reports.map fun done => .ok done.2 := by
  induction es generalizing sm s with
  | nil => exact ⟨rfl, rfl⟩
  | cons e es ih =>
    rcases hap : (r.apply e).run s with ⟨why | report, t⟩
    · rw [replayOnto_cons_error hap] at h; cases h
    · rw [replayOnto_cons_ok hap] at h ⊢
      obtain ⟨hevents, hresults⟩ := ih h
      rw [episodes_cons_ok hap]
      exact ⟨by rw [List.map_cons, hevents], by rw [List.map_cons, hresults, List.map_cons]⟩

/-- A replay that ends in a fault ends with an episode that does. -/
theorem faulted_of_result {why : Fault} (h : (r.replayOnto sm es s).result = .error why) :
    ∃ ep ∈ r.episodes es s, ep.result = .error why := by
  induction es generalizing sm s with
  | nil => cases h
  | cons e es ih =>
    rcases hap : (r.apply e).run s with ⟨why' | report, t⟩
    · rw [replayOnto_cons_error hap] at h
      rw [episodes_cons_error hap]
      cases h
      exact ⟨_, List.mem_singleton.2 rfl, rfl⟩
    · rw [replayOnto_cons_ok hap] at h
      rw [episodes_cons_ok hap]
      obtain ⟨ep, hep, hwhy⟩ := ih h
      exact ⟨ep, List.mem_cons_of_mem _ hep, hwhy⟩

/-- If every event gives a report, the replay ends well. -/
theorem result_of_reported {P : σ → Prop} (hs : P s)
    (happly : ∀ e ∈ es, ∀ s, P s → ∃ report t, (r.apply e).run s = (.ok report, t) ∧ P t) :
    ∃ total, (r.replayOnto sm es s).result = .ok total := by
  induction es generalizing sm s with
  | nil => exact ⟨sm, rfl⟩
  | cons e es ih =>
    obtain ⟨report, t, hap, ht⟩ := happly e List.mem_cons_self s hs
    rw [replayOnto_cons_ok hap]
    exact ih ht fun d hd => happly d (List.mem_cons_of_mem e hd)

end Replayer

end Backdate
