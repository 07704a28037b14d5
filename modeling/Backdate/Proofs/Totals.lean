import Backdate.Command.Session
import Backdate.Proofs.Steps

/-!
# Totals

A summary says of a list of reports what a reader would count, and the console
and the library come to the same one.

* `totals_record`: one report more changes each total as it should; so whatever
  is recorded in order is summed up right (`totals_foldl`).
* `showFrom_eq_replayOnto`: replaying entries on the console is replaying their
  events, with headings in between.
* `session_sums_up`: both together.
-/

namespace Backdate

open Calendar

/-! ## The order of moments -/

namespace Calendar.Moment

theorem le_total (a b : Moment) : a ≤ b ∨ b ≤ a := Int.le_total a.rank b.rank

theorem le_refl (a : Moment) : a ≤ a := Int.le_refl a.rank

theorem le_trans {a b c : Moment} (h : a ≤ b) (h' : b ≤ c) : a ≤ c := Int.le_trans h h'

/-- The earlier of two moments is one of them, and neither is before it. -/
theorem min_spec (a b : Moment) : (min a b = a ∨ min a b = b) ∧ min a b ≤ a ∧ min a b ≤ b := by
  show ((if a ≤ b then a else b) = a ∨ (if a ≤ b then a else b) = b) ∧
    (if a ≤ b then a else b) ≤ a ∧ (if a ≤ b then a else b) ≤ b
  by_cases h : a ≤ b
  · rw [if_pos h]; exact ⟨.inl rfl, le_refl a, h⟩
  · rw [if_neg h]; exact ⟨.inr rfl, (le_total a b).resolve_left h, le_refl b⟩

/-- The later of two moments is one of them, and neither is after it. -/
theorem max_spec (a b : Moment) : (max a b = a ∨ max a b = b) ∧ a ≤ max a b ∧ b ≤ max a b := by
  show ((if a ≤ b then b else a) = a ∨ (if a ≤ b then b else a) = b) ∧
    a ≤ (if a ≤ b then b else a) ∧ b ≤ (if a ≤ b then b else a)
  by_cases h : a ≤ b
  · rw [if_pos h]; exact ⟨.inr rfl, h, le_refl b⟩
  · rw [if_neg h]; exact ⟨.inl rfl, le_refl a, (le_total a b).resolve_left h⟩

end Calendar.Moment

/-! ## What a summary has to say -/

/-- The end of some moments in the order `below`: one of them that none is beyond, and absent if
there are none at all. -/
structure IsEnd (below : Moment → Moment → Prop) (ms : List Moment) (found : Option Moment) :
    Prop where
  absent : found = none ↔ ms = []
  among : ∀ m, found = some m → m ∈ ms
  bounds : ∀ m, found = some m → ∀ t ∈ ms, below m t

/-- **The totals of some reports**: all of them as events; changes and deletions as commits,
whatever became of them; the failures; merges and tags that succeeded, the tags by name and in
order; and the earliest and the latest moment. -/
structure Summary.Totals (s : Summary) (rs : List Report) : Prop where
  events : s.events = rs.length
  commits : s.commits = rs.countP fun r => r.kind == .change || r.kind == .deletion
  failures : s.failures = rs.countP fun r => !r.outcome.isSuccess
  merges : s.merges = rs.countP fun r => r.kind == .merge && r.outcome.isSuccess
  tags : s.tags = (rs.filter fun r => r.kind == .tag && r.outcome.isSuccess).map (·.label)
  first : IsEnd (· ≤ ·) (rs.map (·.timestamp)) s.first
  last : IsEnd (fun m t => t ≤ m) (rs.map (·.timestamp)) s.last

/-- The summary of some reports, recorded in order. -/
def Summary.ofReports (rs : List Report) : Summary := rs.foldl Summary.record {}

/-- The end of some moments is found by going through them, if the choice between two is right. -/
theorem IsEnd.snoc {below : Moment → Moment → Prop} {pick : Moment → Moment → Moment}
    {ms : List Moment} {found : Option Moment} (h : IsEnd below ms found)
    (hrefl : ∀ a, below a a) (htrans : ∀ a b c, below a b → below b c → below a c)
    (hpick : ∀ a b, (pick a b = a ∨ pick a b = b) ∧ below (pick a b) a ∧ below (pick a b) b)
    (t : Moment) : IsEnd below (ms ++ [t]) (some (found.elim t (pick · t))) := by
  cases found with
  | none =>
    obtain rfl : ms = [] := h.absent.1 rfl
    refine ⟨by simp, fun m hm => ?_, fun m hm u hu => ?_⟩
    · cases hm; exact List.mem_singleton.2 rfl
    · cases hm
      rw [List.nil_append, List.mem_singleton] at hu
      rw [hu]; exact hrefl t
  | some a =>
    obtain ⟨hone, hleft, hright⟩ := hpick a t
    refine ⟨by simp, fun m hm => ?_, fun m hm u hu => ?_⟩
    · cases hm
      rcases hone with heq | heq
      · have hin : pick a t ∈ ms := by rw [heq]; exact h.among a rfl
        exact List.mem_append_left _ hin
      · exact List.mem_append_right _ (List.mem_singleton.2 heq)
    · cases hm
      rcases List.mem_append.1 hu with hu | hu
      · exact htrans _ _ _ hleft (h.bounds a rfl u hu)
      · rw [List.mem_singleton.1 hu]; exact hright

namespace Summary

variable {s : Summary} {rs : List Report}

theorem totals_nil : Totals {} [] := by
  have hend : ∀ below, IsEnd below [] none :=
    fun below => ⟨by simp, fun _ h => (by cases h), fun _ h => (by cases h)⟩
  exact ⟨rfl, rfl, rfl, rfl, rfl, hend _, hend _⟩

/-- **One report more.** -/
theorem totals_record (h : Totals s rs) (r : Report) : Totals (s.record r) (rs ++ [r]) where
  events := by
    rw [List.length_append, ← h.events]; rfl
  commits := by
    rw [List.countP_append, ← h.commits, List.countP_singleton]
    unfold record Report.countsAsCommit
    cases r.kind <;> rfl
  failures := by
    rw [List.countP_append, ← h.failures, List.countP_singleton]
    unfold record Report.succeeded
    cases r.outcome.isSuccess <;> rfl
  merges := by
    rw [List.countP_append, ← h.merges, List.countP_singleton]
    unfold record Report.succeeded
    cases r.kind <;> cases r.outcome.isSuccess <;> rfl
  tags := by
    rw [List.filter_append, List.map_append, ← h.tags]
    unfold record Report.succeeded
    cases hkind : r.kind <;> cases hok : r.outcome.isSuccess <;> simp [hkind, hok]
  first := by
    have hfirst : (s.record r).first = some (s.first.elim r.timestamp (min · r.timestamp)) := by
      unfold record; cases s.first <;> rfl
    rw [List.map_append, hfirst]
    exact h.first.snoc Moment.le_refl (fun _ _ _ => Moment.le_trans) Moment.min_spec r.timestamp
  last := by
    have hlast : (s.record r).last = some (s.last.elim r.timestamp (max · r.timestamp)) := by
      unfold record; cases s.last <;> rfl
    rw [List.map_append, hlast]
    exact h.last.snoc Moment.le_refl (fun _ _ _ hab hbc => Moment.le_trans hbc hab)
      Moment.max_spec r.timestamp

/-- Whatever was recorded before, the reports that follow are added to it. -/
theorem totals_foldl (h : Totals s rs) (more : List Report) :
    Totals (more.foldl record s) (rs ++ more) := by
  induction more generalizing s rs with
  | nil => rw [List.append_nil]; exact h
  | cons r more ih =>
    have hnext := ih (totals_record h r)
    rw [List.append_assoc, List.singleton_append] at hnext
    exact hnext

theorem totals_ofReports (rs : List Report) : Totals (ofReports rs) rs :=
  totals_foldl totals_nil rs

end Summary

/-! ## The two ways to replay -/

/-- The report that is shown, if it is one. -/
def Shown.report? : Shown → Option Report
  | .heading _ => none
  | .report r => some r

/-- The reports of a session, in the order they were shown. -/
def Session.reports {σ : Type} (s : Session σ) : List Report := s.shown.filterMap Shown.report?

namespace Replayer

variable {σ : Type} [Tool σ] {r : Replayer}

/-- A heading is no report. -/
theorem filterMap_heading (fresh : Option String) (shown : List Shown) :
    (fresh.toList.map Shown.heading ++ shown).filterMap Shown.report? =
      shown.filterMap Shown.report? := by
  cases fresh <;> rfl

/-- **The console replays the events.** Whatever heading is in force, each entry is applied to the
tool as its event is, so that the two end alike. -/
theorem showFrom_eq_replayOnto (inForce : Option String) (sm : Summary) (es : List Entry)
    (tool : σ) :
    (r.showFrom inForce sm es tool).result = (r.replayOnto sm (es.map (·.event)) tool).result ∧
      (r.showFrom inForce sm es tool).tool = (r.replayOnto sm (es.map (·.event)) tool).tool ∧
      (r.showFrom inForce sm es tool).reports =
        (r.replayOnto sm (es.map (·.event)) tool).reports.map (·.2) := by
  induction es generalizing inForce sm tool with
  | nil => exact ⟨rfl, rfl, rfl⟩
  | cons e es ih =>
    rw [List.map_cons]
    rcases hap : (r.apply e.event).run tool with ⟨why | report, next⟩
    · rw [showFrom, hap, replayOnto_cons_error hap]
      refine ⟨rfl, rfl, ?_⟩
      have hnone := filterMap_heading (e.newHeading inForce) []
      rw [List.append_nil] at hnone
      exact hnone
    · obtain ⟨hresult, htool, hreports⟩ :=
        ih ((e.newHeading inForce).or inForce) (sm.record report) next
      rw [showFrom, hap, replayOnto_cons_ok hap]
      refine ⟨hresult, htool, ?_⟩
      unfold Session.reports at hreports ⊢
      rw [filterMap_heading, List.filterMap_cons, hreports]
      rfl

/-- A replay that ends well has recorded its reports in order. -/
theorem result_eq_foldl {sm total : Summary} {es : List Event} {tool : σ}
    (h : (r.replayOnto sm es tool).result = .ok total) :
    total = ((r.replayOnto sm es tool).reports.map (·.2)).foldl Summary.record sm := by
  induction es generalizing sm tool with
  | nil => cases h; rfl
  | cons e es ih =>
    rcases hap : (r.apply e).run tool with ⟨why | report, next⟩
    · rw [replayOnto_cons_error hap] at h; cases h
    · rw [replayOnto_cons_ok hap] at h ⊢
      rw [List.map_cons, List.foldl_cons]
      exact ih h

/-- **One summary, by either way.** For every tool and whatever state it is in, a session over the
entries of a plan and a replay of its events end in the same fault or the same summary, with the
tool in the same state and the same reports before; a summary is that of the reports, recorded in
order; and what is recorded in order is summed up right. -/
theorem session_sums_up (r : Replayer) (p : Plan) (tool : σ) :
    ((r.session p.entries tool).result = (r.replay p.events tool).result ∧
      (r.session p.entries tool).tool = (r.replay p.events tool).tool ∧
      (r.session p.entries tool).reports = (r.replay p.events tool).reports.map (·.2)) ∧
    (∀ total, (r.replay p.events tool).result = .ok total →
      total = Summary.ofReports ((r.replay p.events tool).reports.map (·.2)) ∧
        (r.replay p.events tool).reports.map (·.1) = p.events) ∧
    ∀ rs, (Summary.ofReports rs).Totals rs :=
  ⟨showFrom_eq_replayOnto none {} p.entries tool,
    fun _ h => ⟨result_eq_foldl h, events_of_result h⟩, Summary.totals_ofReports⟩

end Replayer

end Backdate
