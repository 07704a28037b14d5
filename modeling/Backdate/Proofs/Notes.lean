import Backdate.Command.Run
import Backdate.Proofs.LockStep
import Backdate.Proofs.Recording

/-!
# Notes are only written

Notes are for whoever looks into a run. They are kept by the tools as the run
goes on, between its processes and its failures, and shown on standard error if
the setting asks for it. Nothing reads them: whatever notes a tool has kept
before, it does the same and adds the same notes to them.

* `Git.start_withNotes`, `Recorder.step_mapNotes`: this of a process and of a
  recorded operation;
* `unseen_apply`, `showFrom_of_unseen`: so of events and of whole sessions;
* `answer_showing`: showing the notes changes nothing else of an answer.
-/

namespace Backdate

open Calendar Act

variable {pre : List Note}

/-- A git that has kept other notes before. -/
def Git.withNotes (pre : List Note) (g : Git) : Git := { g with notes := pre ++ g.notes }

/-- A recorder that has kept other notes before. -/
def Recorder.withNotes (pre : List Note) (t : Recorder) : Recorder := t.mapNotes (pre ++ ·)

/-! ## Sessions in lock step -/

section Sessions

variable {σ : Type} {r : Replayer} {e : Event} {f : σ → σ}

/-- A change of the state that an action does not see: it does the same with it, and keeps it. -/
def Unseen {α : Type} (f : σ → σ) (x : Act σ α) : Prop := Alike (fun s t => t = f s) Eq x x

theorem Unseen.run_eq {α : Type} {x : Act σ α} (h : Unseen f x) (s : σ) :
    x.run (f s) = ((x.run s).1, f (x.run s).2) := by
  obtain ⟨hres, hstate⟩ := h s (f s) rfl
  exact Prod.ext (agree_eq_iff.1 hres).symm hstate

variable [Tool σ]

/-- **An event does not see what its operations do not see.** -/
theorem unseen_apply
    (hops : ∀ op ∈ Operation.switch e.branch :: r.preparations e, Unseen f op.perform)
    (hwrite : ∀ stamp, Unseen f (e.writing stamp).perform)
    (hnote : ∀ n, Unseen f (modify (Tool.note n))) : Unseen f (r.apply e) := by
  cases hm : r.anchor.resolve e.time with
  | error why =>
    -- no operation is asked for
    intro s t hst
    rw [Replayer.apply_unresolved hm, Replayer.apply_unresolved hm]
    exact ⟨.fault _, hst⟩
  | ok m =>
    refine Replayer.alike_apply hm hm rfl hops (hwrite _) fun outcome warnings => ?_
    unfold Replayer.noted
    cases (e.report m outcome warnings).outcome.describe with
    | none => exact alike_pure rfl
    | some line => exact (hnote _).then fun _ => alike_pure rfl

/-- **A session does not see what its events do not see.** -/
theorem showFrom_of_unseen {es : List Entry} (h : ∀ e ∈ es, Unseen f (r.apply e.event))
    (inForce : Option String) (sm : Summary) (s : σ) :
    r.showFrom inForce sm es (f s) =
      ⟨(r.showFrom inForce sm es s).shown, (r.showFrom inForce sm es s).result,
        f (r.showFrom inForce sm es s).tool⟩ := by
  induction es generalizing inForce sm s with
  | nil => rfl
  | cons e es ih =>
    obtain ⟨he, hes⟩ := List.forall_mem_cons.1 h
    have hrun := he.run_eq s
    rcases hap : (r.apply e.event).run s with ⟨why | report, t⟩ <;> rw [hap] at hrun
    · simp only [Replayer.showFrom, hap, hrun]
    · simp only [Replayer.showFrom, hap, hrun, ih hes]

end Sessions

/-! ## Git -/

namespace Git

theorem log_withNotes (text : String) (g : Git) :
    (g.withNotes pre).log text = (g.log text).withNotes pre := by
  simp only [log, withNotes, List.append_assoc]

/-- **The start of a process does not see the notes**: it depends on its arguments, on the directory
and on the script. -/
theorem start_withNotes (c : Call) (g : Git) :
    (start c).run (g.withNotes pre) = (((start c).run g).1, ((start c).run g).2.withNotes pre) := by
  have hannounced : (g.withNotes pre).announced c = (g.announced c).withNotes pre :=
    log_withNotes _ g
  cases hnul : c.hasNul with
  | true => rw [start_nul hnul, start_nul hnul, hannounced]
  | false =>
    cases hb : g.blocked with
    | some why =>
      have hb' : (g.withNotes pre).blocked = some why := hb
      rw [start_blocked hnul hb, start_blocked hnul hb', hannounced]
    | none =>
      have hb' : (g.withNotes pre).blocked = none := hb
      rw [start_open hnul hb, start_open hnul hb', hannounced]; rfl

/-- **Git does not see its notes.** -/
theorem inStep_withNotes : InStep (fun g h => h = g.withNotes pre) Eq where
  plain := rfl
  start args := by
    rintro env _ rfl g _ rfl
    rw [start_withNotes]
    exact ⟨agree_eq_iff.2 rfl, rfl⟩
  log text := by
    refine alike_modify ?_
    rintro g _ rfl
    exact log_withNotes text g

theorem session_withNotes (r : Replayer) (es : List Entry) (g : Git) :
    r.session es (g.withNotes pre) =
      ⟨(r.session es g).shown, (r.session es g).result, (r.session es g).tool.withNotes pre⟩ := by
  have happly : ∀ e : Event, Unseen (withNotes pre) (r.apply e : Act Git Report) := by
    intro e
    refine unseen_apply (inStep_withNotes.preparing r e) (fun stamp => ?_) fun n => ?_
    · exact inStep_withNotes.writing e rfl
    · refine alike_modify ?_
      rintro g _ rfl
      simp only [Tool.note, withNotes, List.append_assoc]
  exact showFrom_of_unseen (fun e _ => happly e.event) none {} g

end Git

/-! ## Recorders -/

namespace Recorder

theorem session_withNotes (r : Replayer) (es : List Entry) (t : Recorder) :
    r.session es (t.withNotes pre) =
      ⟨(r.session es t).shown, (r.session es t).result, (r.session es t).tool.withNotes pre⟩ := by
  have hperform : ∀ op : Operation,
      Unseen (withNotes pre) (op.perform : Act Recorder Outcome) := by
    rintro op t _ rfl
    rw [run_perform, run_perform, withNotes, step_mapNotes]
    exact ⟨.ok rfl, rfl⟩
  have happly : ∀ e : Event, Unseen (withNotes pre) (r.apply e : Act Recorder Report) := by
    intro e
    refine unseen_apply (fun op _ => hperform op) (fun stamp => hperform _) fun n => ?_
    refine alike_modify ?_
    rintro t _ rfl
    simp only [Tool.note, withNotes, mapNotes, List.append_assoc]
  exact showFrom_of_unseen (fun e _ => happly e.event) none {} t

end Recorder

/-! ## The whole program -/

/-- The notes of a run of the program. -/
def Setting.notes (s : Setting) (args : List String) : List Note :=
  match Request.parse args with
  | some (.command c) => (s.run c).1.notes
  | some .help | some .version | none => []

theorem Setting.run_log (s : Setting) (log : Bool) (c : Command) :
    ({ s with log := log } : Setting).run c = s.run c := by
  cases c <;> rfl

/-- An answer with the notes shown before whatever else is on standard error. -/
def Answer.showing (a : Answer) (notes : List Note) : Answer :=
  { a with stderr := String.join (notes.map fun n => n.line ++ "\n") ++ a.stderr }

/-- **Showing the notes of a run adds their lines to standard error**, and nothing else. -/
theorem answer_showing (s : Setting) (args : List String) :
    answer { s with log := true } args = (answer { s with log := false } args).showing (s.notes args) := by
  unfold answer Setting.notes
  cases Request.parse args with
  | none => rfl
  | some request =>
    cases request with
    | help => rfl
    | version => rfl
    | command c =>
      simp only [Setting.run_log]
      simp [Progress.answer, Answer.showing]

/-- **Notes never interfere.** Whatever the arguments, the files, the replies of git and the colour,
a run that shows its notes has the exit code, the output and the calls of one that does not, and
their standard errors differ by the lines of the notes alone. Nor does what a run does depend on
the notes that it keeps on the way: over any notes from before, git and the recorder go through the
same sessions to the same end, and add the same notes to them. -/
theorem notes_never_interfere (s : Setting) (args : List String) :
    (let loud := answer { s with log := true } args
     let quiet := answer { s with log := false } args
     loud.exit = quiet.exit ∧ loud.stdout = quiet.stdout ∧ loud.calls = quiet.calls ∧
       loud.stderr = String.join ((s.notes args).map fun n => n.line ++ "\n") ++ quiet.stderr) ∧
    ∀ pre : List Note,
      (∀ (r : Replayer) (es : List Entry) (g : Git), r.session es (g.withNotes pre) =
        ⟨(r.session es g).shown, (r.session es g).result, (r.session es g).tool.withNotes pre⟩) ∧
      (∀ (r : Replayer) (es : List Entry) (t : Recorder), r.session es (t.withNotes pre) =
        ⟨(r.session es t).shown, (r.session es t).result, (r.session es t).tool.withNotes pre⟩) ∧
      (∀ g : Git, Git.isRepository.run (g.withNotes pre) =
        ((Git.isRepository.run g).1, (Git.isRepository.run g).2.withNotes pre)) ∧
      ∀ g : Git, Git.currentBranch.run (g.withNotes pre) =
        ((Git.currentBranch.run g).1, (Git.currentBranch.run g).2.withNotes pre) := by
  refine ⟨?_, fun pre => ⟨?_, ?_, ?_, ?_⟩⟩
  · intro loud quiet
    have hloud : loud = quiet.showing (s.notes args) := answer_showing s args
    rw [hloud]
    exact ⟨rfl, rfl, rfl, rfl⟩
  · exact Git.session_withNotes
  · exact Recorder.session_withNotes
  · intro g
    have hunseen : Unseen (Git.withNotes pre) Git.isRepository := Git.inStep_withNotes.isRepository
    exact hunseen.run_eq g
  · intro g
    have hunseen : Unseen (Git.withNotes pre) Git.currentBranch := Git.inStep_withNotes.currentBranch
    exact hunseen.run_eq g

end Backdate
