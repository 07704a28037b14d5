import Backdate.Command.Overview
import Backdate.Git
import Backdate.Proofs.Acceptance
import Backdate.Proofs.Totals
import Mathlib.Data.List.Basic

/-!
# What an overview foretells

An overview counts the events of a plan and nothing else; a summary counts what
became of them. Whatever the tool and whatever it answers, a replay that comes
to its end bears the overview out (`overview_foretells`).

* `ofReports_ends`: a summary finds the first and the last moment as an overview
  does, by going through the moments in order;
* `moments_eq`: the moments that are gone through are the same, since no event of
  such a replay is without one.
-/

namespace Backdate

open Calendar

/-- **What an overview says of the summary of a replay**: its first and its last moment, how many
commits there are, how many merges and tags there can be at most, and how many events. -/
structure Overview.Foretells (o : Overview) (total : Summary) : Prop where
  first : total.first = o.range.map (·.1)
  last : total.last = o.range.map (·.2)
  commits : total.commits = o.changes + o.deletions
  merges : total.merges ≤ o.merges
  tags : total.tags.length ≤ o.tags
  events : total.events = o.first + o.second

/-! ## The ends of a summary -/

theorem momentRange_eq_none {ms : List Moment} : momentRange ms = none ↔ ms = [] := by
  cases ms <;> simp [momentRange]

namespace Summary

/-- Once there is a first and a last moment, each report is weighed against them. -/
theorem foldl_record_ends {s : Summary} {a b : Moment} (ha : s.first = some a) (hb : s.last = some b)
    (rs : List Report) :
    (rs.foldl record s).first = some ((rs.map (·.timestamp)).foldl min a) ∧
      (rs.foldl record s).last = some ((rs.map (·.timestamp)).foldl max b) := by
  induction rs generalizing s a b with
  | nil => exact ⟨ha, hb⟩
  | cons r rs ih =>
    have hfirst : (s.record r).first = some (min a r.timestamp) := by unfold record; rw [ha]
    have hlast : (s.record r).last = some (max b r.timestamp) := by unfold record; rw [hb]
    exact ih hfirst hlast

/-- **A summary ends where its moments do.** -/
theorem ofReports_ends (rs : List Report) :
    (ofReports rs).first = (momentRange (rs.map (·.timestamp))).map (·.1) ∧
      (ofReports rs).last = (momentRange (rs.map (·.timestamp))).map (·.2) := by
  cases rs with
  | nil => exact ⟨rfl, rfl⟩
  | cons r rs => exact foldl_record_ends rfl rfl rs

end Summary

/-! ## Counting events -/

/-- What is counted of reports by their kind can be counted of their events. -/
theorem countP_kind {done : List (Event × Report)} (h : ∀ d ∈ done, d.2.kind = d.1.kind)
    (P : Kind → Bool) :
    (done.map (·.2)).countP (fun r => P r.kind) = (done.map (·.1)).countP fun e => P e.kind := by
  rw [List.countP_map, List.countP_map]
  refine List.countP_congr fun d hd => ?_
  simp only [Function.comp_apply, h d hd]

/-- An event is a change or a deletion, and not both. -/
theorem countP_change_or_deletion (es : List Event) :
    (es.countP fun e => e.kind == .change || e.kind == .deletion) =
      (es.countP fun e => e.kind == .change) + es.countP fun e => e.kind == .deletion := by
  induction es with
  | nil => rfl
  | cons e es ih =>
    simp only [List.countP_cons, ih]
    cases e.kind <;> simp <;> omega

/-- Every event belongs to one of the two authors. -/
theorem countP_authors (es : List Event) :
    (es.countP fun e => e.author == .first) + (es.countP fun e => e.author == .second) =
      es.length := by
  have hother : (fun e : Event => decide ¬(e.author == .first) = true) =
      fun e => e.author == .second := by
    funext e
    cases e.author <;> rfl
  rw [List.length_eq_countP_add_countP (fun e : Event => e.author == .first), hother]

namespace Plan

variable {σ : Type} [Tool σ] {p : Plan} {r : Replayer} {tool : σ} {total : Summary}

/-- The moments of a plan are those of its reports, if every event came to one. -/
theorem moments_eq (hr : r.anchor = p.anchor) (hok : (r.replay p.events tool).result = .ok total) :
    p.moments = (r.replay p.events tool).reports.map (·.2.timestamp) := by
  let done := (r.replay p.events tool).reports
  have hevents : done.map (·.1) = p.events := Replayer.events_of_result hok
  have hmoment : ∀ d ∈ done, (p.anchor.resolve d.1.time).toOption = some d.2.timestamp := by
    intro d hd
    obtain ⟨m, outcome, warnings, hm, hreport⟩ := Replayer.reported_of_mem hd
    rw [← hr, hm, hreport]; rfl
  calc p.moments
      = (done.map (·.1)).filterMap fun e => (p.anchor.resolve e.time).toOption := by
        rw [hevents]; rfl
    _ = done.filterMap fun d => (p.anchor.resolve d.1.time).toOption := List.filterMap_map
    _ = done.map (·.2.timestamp) := List.filterMap_eq_map_iff_forall_eq_some.2 hmoment

/-- **A check predicts the replay.** Replay the events of a plan from its anchor, on any tool and in
whatever state it is: if the replay comes to its end, its summary is as the overview of the plan
foretells, and there is a first and a last moment unless the plan has no events. -/
theorem overview_foretells (hr : r.anchor = p.anchor)
    (hok : (r.replay p.events tool).result = .ok total) :
    p.overview.Foretells total ∧ (p.overview.range = none ↔ p.events = []) ∧
      (total.first = none ↔ p.events = []) ∧ (total.last = none ↔ p.events = []) := by
  let done := (r.replay p.events tool).reports
  have hevents : done.map (·.1) = p.events := Replayer.events_of_result hok
  have htotal : total = Summary.ofReports (done.map (·.2)) := Replayer.result_eq_foldl hok
  have htotals := Summary.totals_ofReports (done.map (·.2))
  rw [← htotal] at htotals
  -- a report is of the kind of its event, so kinds can be counted on either side
  have hkind : ∀ d ∈ done, d.2.kind = d.1.kind := by
    intro d hd
    obtain ⟨m, outcome, warnings, -, hreport⟩ := Replayer.reported_of_mem hd
    rw [hreport]; rfl
  have hcount (P : Kind → Bool) :
      (done.map (·.2)).countP (fun r => P r.kind) = p.events.countP fun e => P e.kind := by
    rw [← hevents]; exact countP_kind hkind P
  have hatMost (k : Kind) : ((done.map (·.2)).countP fun r => r.kind == k && r.outcome.isSuccess) ≤
      p.events.countP fun e => e.kind == k := by
    rw [← hcount (· == k)]
    exact List.countP_mono_left fun r _ h => (Bool.and_eq_true_iff.1 h).1
  -- both go through the same moments
  have hmoments : (done.map (·.2)).map (·.timestamp) = p.moments := by
    rw [moments_eq hr hok, List.map_map]; rfl
  obtain ⟨hfirst, hlast⟩ := Summary.ofReports_ends (done.map (·.2))
  rw [← htotal, hmoments] at hfirst hlast
  have hnone : p.overview.range = none ↔ p.events = [] := by
    rw [← hevents]
    show momentRange p.moments = none ↔ _
    rw [momentRange_eq_none, ← hmoments]
    simp
  refine ⟨⟨hfirst, hlast, ?_, ?_, ?_, ?_⟩, hnone, ?_, ?_⟩
  · rw [htotals.commits, hcount fun k => k == .change || k == .deletion]
    exact countP_change_or_deletion p.events
  · rw [htotals.merges]; exact hatMost .merge
  · rw [htotals.tags, List.length_map, ← List.countP_eq_length_filter]; exact hatMost .tag
  · rw [htotals.events, List.length_map, ← List.length_map (f := Prod.fst), hevents]
    exact (countP_authors p.events).symm
  · rw [hfirst, Option.map_eq_none_iff]; exact hnone
  · rw [hlast, Option.map_eq_none_iff]; exact hnone

/-- The events are not in the order of time, and git refuses the merge. -/
theorem overview_foretells_unordered :
    let p : Plan := ⟨⟨⟨2025, 10, 18, by decide⟩, ⟨9, 0, 0, by decide, by decide, by decide⟩⟩,
      ⟨⟨"Ada", "a@x"⟩, ⟨"Grace", "g@x"⟩⟩, [],
      [⟨none, ⟨"main", .first, ⟨2, 9, 0⟩, .change "late" .nothing⟩⟩,
       ⟨none, ⟨"main", .second, ⟨0, 8, 30⟩, .merge "topic"⟩⟩,
       ⟨none, ⟨"main", .first, ⟨1, 9, 0⟩, .tag "v1" "done"⟩⟩]⟩
    let g : Git := { script := [{}, {}, {}, { exit := 1 }] }
    let total : Summary := ⟨3, 1, 0, ["v1"], 1,
      some ⟨⟨2025, 10, 18, by decide⟩, ⟨8, 30, 0, by decide, by decide, by decide⟩⟩,
      some ⟨⟨2025, 10, 20, by decide⟩, ⟨9, 0, 0, by decide, by decide, by decide⟩⟩⟩
    (p.replayer.replay p.events g).result = .ok total ∧ p.overview.merges = 1 ∧
      p.overview.Foretells total := by
  intro p g total
  have hok : (p.replayer.replay p.events g).result = .ok total := by decide +kernel
  exact ⟨hok, rfl, (overview_foretells rfl hok).1⟩

end Plan

end Backdate
