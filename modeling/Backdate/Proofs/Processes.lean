import Backdate.Git
import Backdate.Proofs.Steps

/-!
# What an action asks of git

An action on git is seen from outside by its result and by the processes that it
ran. `Does x g ps res g'` says both at once, and is taken apart along the
definition of the action: a sequence does the one and then the other
(`does_bind`), and a step is one process, or none if it does not start
(`does_run`).
-/

namespace Backdate

/-- Whether there is a NUL in what a process is started with. -/
def Call.hasNul (c : Call) : Bool :=
  c.args.any Text.hasNul || c.environment.any fun v => Text.hasNul v.2

/-! ## The calls of git -/

namespace Call

def checkout (branch : String) : Call := ⟨["checkout", "-q", branch, "--"], []⟩

/-- Asks whether a branch exists. -/
def verify (branch : String) : Call :=
  ⟨["rev-parse", "--verify", "--quiet", "refs/heads/" ++ branch], []⟩

/-- Creates a branch and goes to it. -/
def create (branch : String) : Call := ⟨["checkout", "-q", "-b", branch], []⟩

def add (path : String) : Call := ⟨["add", "--", path], []⟩

def addAll : Call := ⟨["add", "-A", "--", "."], []⟩

def reset (path : String) : Call := ⟨["reset", "-q", "--", path], []⟩

def remove (path : String) : Call := ⟨["rm", "-q", "-r", "--", path], []⟩

def commit (message : String) (stamp : Stamp) (allowEmpty : Bool) : Call :=
  ⟨["commit", "-q", "-m", message] ++ (if allowEmpty then ["--allow-empty"] else []),
    stamp.environment⟩

def merge (source message : String) (stamp : Stamp) : Call :=
  ⟨["merge", "--no-ff", "-m", message, source], stamp.environment⟩

/-- Undoes a merge in conflict. -/
def abort : Call := ⟨["merge", "--abort"], []⟩

def tag (name message : String) (stamp : Stamp) : Call :=
  ⟨["tag", "-a", name, "-m", message], stamp.environment⟩

theorem hasNul_checkout (branch : String) : (checkout branch).hasNul = Text.hasNul branch := by
  simp [hasNul, checkout, Text.hasNul]

theorem hasNul_verify (branch : String) : (verify branch).hasNul = Text.hasNul branch := by
  simp [hasNul, verify, Text.hasNul]

theorem hasNul_create (branch : String) : (create branch).hasNul = Text.hasNul branch := by
  simp [hasNul, create, Text.hasNul]

theorem hasNul_abort : abort.hasNul = false := by decide

end Call

/-- The outcome of a step that came to one reply. -/
def Reply.outcome (step : String) (r : Reply) : Outcome :=
  if r.succeeded then .success else .failure step r.detail

theorem Reply.isSuccess_outcome (step : String) (r : Reply) :
    (r.outcome step).isSuccess = r.succeeded := by
  unfold outcome; cases h : r.succeeded <;> rfl

namespace Git

variable {α β : Type}

/-- The processes took their replies from a script, in order, and left the rest of it. -/
def Served : List Reply → List Process → List Reply → Prop
  | script, [], rest => rest = script
  | script, p :: ps, rest => p.reply = script.headD {} ∧ Served script.tail ps rest

theorem Served.append {a b c : List Reply} {ps qs : List Process} (h : Served a ps b)
    (h' : Served b qs c) : Served a (ps ++ qs) c := by
  induction ps generalizing a with
  | nil => simp only [Served] at h; subst h; exact h'
  | cons p ps ih => exact ⟨h.1, ih h.2⟩

/-- Git has run the given processes, and is otherwise as it was, save for its notes. -/
structure Ran (g : Git) (ps : List Process) (g' : Git) : Prop where
  ran : g'.ran = g.ran ++ ps
  served : Served g.script ps g'.script
  blocked : g'.blocked = g.blocked
  started : ∀ p ∈ ps, p.call.hasNul = false ∧ g.blocked = none

theorem Ran.idle {g g' : Git} (hr : g'.ran = g.ran) (hs : g'.script = g.script)
    (hb : g'.blocked = g.blocked) : Ran g [] g' :=
  ⟨by rw [hr, List.append_nil], hs, hb, by simp⟩

theorem Ran.trans {g g₁ g₂ : Git} {ps qs : List Process} (h : Ran g ps g₁) (h' : Ran g₁ qs g₂) :
    Ran g (ps ++ qs) g₂ := by
  refine ⟨?_, h.served.append h'.served, h'.blocked.trans h.blocked, ?_⟩
  · rw [h'.ran, h.ran, List.append_assoc]
  · intro p hp
    rcases List.mem_append.1 hp with hp | hp
    · exact h.started p hp
    · rw [← h.blocked]; exact h'.started p hp

theorem Ran.unique {g g' : Git} {ps qs : List Process} (h : Ran g ps g') (h' : Ran g qs g') :
    ps = qs := by
  have := h.ran.symm.trans h'.ran
  exact List.append_cancel_left this

/-- An action, started on `g`, ran processes, ended with a result, and left git as `g'`. -/
structure Does (x : Act Git α) (g : Git) (ps : List Process) (res : Except Fault α) (g' : Git) :
    Prop where
  run : x.run g = (res, g')
  ran : Ran g ps g'

/-- An action that only ever adds to the processes that ran. -/
def Logs (x : Act Git α) : Prop := ∀ g, ∃ ps, Ran g ps (x.run g).2

theorem Logs.does {x : Act Git α} (h : Logs x) (g : Git) :
    ∃ ps, Does x g ps (x.run g).1 (x.run g).2 := by
  obtain ⟨ps, hps⟩ := h g
  exact ⟨ps, rfl, hps⟩

theorem logs_pure (a : α) : Logs (pure a) := fun _ => ⟨[], Ran.idle rfl rfl rfl⟩

theorem logs_throw (why : Fault) : Logs (throw why : Act Git α) :=
  fun _ => ⟨[], Ran.idle rfl rfl rfl⟩

theorem logs_log (text : String) : Logs (modify (log text)) := fun _ => ⟨[], Ran.idle rfl rfl rfl⟩

theorem logs_bind {x : Act Git α} {f : α → Act Git β} (hx : Logs x) (hf : ∀ a, Logs (f a)) :
    Logs (x >>= f) := by
  intro g
  obtain ⟨ps, hps⟩ := hx g
  rw [Act.run_bind]
  rcases hxg : x.run g with ⟨_ | a, g₁⟩ <;> rw [hxg] at hps
  · exact ⟨ps, hps⟩
  · obtain ⟨qs, hqs⟩ := hf a g₁
    exact ⟨ps ++ qs, hps.trans hqs⟩

theorem logs_ite {c : Prop} [Decidable c] {x y : Act Git α} (hx : Logs x) (hy : Logs y) :
    Logs (if c then x else y) := by
  split
  · exact hx
  · exact hy

theorem does_pure {a : α} {g g' : Git} {ps : List Process} {res : Except Fault α}
    (h : Does (pure a) g ps res g') : ps = [] ∧ res = .ok a := by
  have hrun := h.run
  rw [Act.run_pure, Prod.mk.injEq] at hrun
  obtain ⟨rfl, rfl⟩ := hrun
  exact ⟨h.ran.unique (Ran.idle rfl rfl rfl), rfl⟩

/-- A sequence does what its first action does, and then what the second does. -/
theorem does_bind {x : Act Git α} {f : α → Act Git β} {g g' : Git} {ps : List Process}
    {res : Except Fault β} (h : Does (x >>= f) g ps res g') (hx : Logs x) (hf : ∀ a, Logs (f a)) :
    (∃ why, Does x g ps (.error why) g' ∧ res = .error why) ∨
      ∃ a qs g₁ rs, Does x g qs (.ok a) g₁ ∧ Does (f a) g₁ rs res g' ∧ ps = qs ++ rs := by
  have hrun := h.run
  obtain ⟨qs, hqs⟩ := hx g
  rw [Act.run_bind] at hrun
  rcases hxg : x.run g with ⟨why | a, g₁⟩ <;> rw [hxg] at hrun hqs
  · cases hrun
    exact .inl ⟨why, ⟨hxg, h.ran⟩, rfl⟩
  · simp only at hrun
    obtain ⟨rs, hrs⟩ := hf a g₁
    rw [hrun] at hrs
    exact .inr ⟨a, qs, g₁, rs, ⟨hxg, hqs⟩, ⟨hrun, hrs⟩, h.ran.unique (hqs.trans hrs)⟩

/-- An action that keeps a note runs nothing for it. -/
theorem does_log_bind {text : String} {x : Act Git α} {g g' : Git} {ps : List Process}
    {res : Except Fault α} (h : Does (do modify (log text); x) g ps res g') (hx : Logs x) :
    Does x (g.log text) ps res g' := by
  have hrun : x.run (g.log text) = (res, g') := h.run
  obtain ⟨qs, hqs⟩ := hx (g.log text)
  rw [hrun] at hqs
  have hidle : Ran g [] (g.log text) := Ran.idle rfl rfl rfl
  have heq : ps = qs := h.ran.unique (hidle.trans hqs)
  exact ⟨hrun, heq ▸ hqs⟩

/-! ## One process -/

/-- Why a process did not start. -/
def NotStarted (g : Git) (c : Call) (why : Fault) : Prop :=
  (c.hasNul = true ∧ why = .notStarted (c.args.headD "") .nul) ∨
    (c.hasNul = false ∧ ∃ e, g.blocked = some e ∧ why = .notStarted (c.args.headD "") (.directory e))

/-- Git with the note that comes before every process. -/
def announced (g : Git) (c : Call) : Git := g.log ("git " ++ String.intercalate " " c.args)

theorem start_nul {c : Call} (hnul : c.hasNul = true) (g : Git) :
    (start c).run g = (.error (.notStarted (c.args.headD "") .nul), g.announced c) := if_pos hnul

/-- The note changes neither the directory nor the script. -/
theorem start_blocked {c : Call} {g : Git} {why : PathError} (hnul : c.hasNul = false)
    (hb : g.blocked = some why) :
    (start c).run g = (.error (.notStarted (c.args.headD "") (.directory why)), g.announced c) := by
  have hno : ¬ c.hasNul = true := by rw [hnul]; simp
  refine (if_neg hno).trans ?_
  rw [show (g.log _).blocked = some why from hb]; rfl

theorem start_open {c : Call} {g : Git} (hnul : c.hasNul = false) (hb : g.blocked = none) :
    (start c).run g = (.ok (g.script.headD {}), { g.announced c with
      script := g.script.tail, ran := g.ran ++ [⟨c, g.script.headD {}⟩] }) := by
  have hno : ¬ c.hasNul = true := by rw [hnul]; simp
  refine (if_neg hno).trans ?_
  simp only [announced]
  rw [show (g.log _).blocked = none from hb]; rfl

/-- The result of starting a process: it runs and gives its reply, or it does not start. -/
theorem start_cases (c : Call) (g : Git) :
    (∃ g', (start c).run g = (.ok (g.script.headD {}), g') ∧
      Ran g [⟨c, g.script.headD {}⟩] g' ∧ c.hasNul = false ∧ g.blocked = none) ∨
    (∃ why g', (start c).run g = (.error why, g') ∧ Ran g [] g' ∧ NotStarted g c why) := by
  cases hnul : c.hasNul with
  | true => exact .inr ⟨_, _, start_nul hnul g, Ran.idle rfl rfl rfl, .inl ⟨hnul, rfl⟩⟩
  | false =>
    cases hb : g.blocked with
    | some e =>
      exact .inr ⟨_, _, start_blocked hnul hb, Ran.idle rfl rfl rfl, .inr ⟨hnul, e, hb, rfl⟩⟩
    | none =>
      refine .inl ⟨_, start_open hnul hb, ⟨rfl, ⟨rfl, rfl⟩, rfl, ?_⟩, rfl, rfl⟩
      intro p hp
      rw [List.mem_singleton] at hp
      subst hp; exact ⟨hnul, hb⟩

theorem logs_start (c : Call) : Logs (start c) := by
  intro g
  rcases start_cases c g with ⟨g', hrun, hran, -⟩ | ⟨why, g', hrun, hran, -⟩
  · rw [hrun]; exact ⟨_, hran⟩
  · rw [hrun]; exact ⟨_, hran⟩

theorem does_start_ok {c : Call} {g g' : Git} {ps : List Process} {reply : Reply}
    (h : Does (start c) g ps (.ok reply) g') : ps = [⟨c, reply⟩] := by
  rcases start_cases c g with ⟨g₁, hrun, hran, -⟩ | ⟨why, g₁, hrun, -⟩
  · obtain ⟨heq, rfl⟩ := Prod.mk.inj (h.run.symm.trans hrun)
    cases heq; exact h.ran.unique hran
  · cases h.run.symm.trans hrun

theorem does_start_error {c : Call} {g g' : Git} {ps : List Process} {why : Fault}
    (h : Does (start c) g ps (.error why) g') : ps = [] ∧ NotStarted g c why := by
  rcases start_cases c g with ⟨g₁, hrun, -⟩ | ⟨why', g₁, hrun, hran, hwhy⟩
  · cases h.run.symm.trans hrun
  · obtain ⟨heq, rfl⟩ := Prod.mk.inj (h.run.symm.trans hrun)
    cases heq; exact ⟨h.ran.unique hran, hwhy⟩

theorem logs_run (step : String) (c : Call) : Logs (run step c) := by
  refine logs_bind (logs_start c) fun reply => logs_ite (logs_pure _) ?_
  exact logs_bind (logs_log _) fun _ => logs_pure _

/-- A step is one process, or none if it does not start. -/
theorem does_run {step : String} {c : Call} {g g' : Git} {ps : List Process}
    {res : Except Fault Outcome} (h : Does (run step c) g ps res g') :
    (∃ reply, ps = [⟨c, reply⟩] ∧ res = .ok (reply.outcome step)) ∨
      ∃ why, ps = [] ∧ res = .error why ∧ NotStarted g c why := by
  rcases does_bind h (logs_start c) (fun _ => logs_ite (logs_pure _)
      (logs_bind (logs_log _) fun _ => logs_pure _)) with
    ⟨why, hs, rfl⟩ | ⟨reply, qs, g₁, rs, hs, hrs, rfl⟩
  · obtain ⟨rfl, hwhy⟩ := does_start_error hs
    exact .inr ⟨why, rfl, rfl, hwhy⟩
  · cases does_start_ok hs
    refine .inl ⟨reply, ?_⟩
    unfold Reply.outcome
    cases hok : reply.succeeded <;> rw [hok] at hrs
    · obtain ⟨rfl, rfl⟩ := does_pure (does_log_bind hrs (logs_pure _))
      exact ⟨rfl, rfl⟩
    · obtain ⟨rfl, rfl⟩ := does_pure hrs
      exact ⟨rfl, rfl⟩

theorem does_run_ok {step : String} {c : Call} {g g' : Git} {ps : List Process} {o : Outcome}
    (h : Does (run step c) g ps (.ok o) g') :
    ∃ reply, ps = [⟨c, reply⟩] ∧ o = reply.outcome step := by
  rcases does_run h with ⟨reply, hps, heq⟩ | ⟨why, -, heq, -⟩
  · exact ⟨reply, hps, Except.ok.inj heq⟩
  · cases heq

theorem does_run_error {step : String} {c : Call} {g g' : Git} {ps : List Process} {why : Fault}
    (h : Does (run step c) g ps (.error why) g') : ps = [] ∧ NotStarted g c why := by
  rcases does_run h with ⟨reply, -, heq⟩ | ⟨why', hps, heq, hwhy⟩
  · cases heq
  · cases heq; exact ⟨hps, hwhy⟩

/-- What started once starts again. -/
theorem not_notStarted {g : Git} {c : Call} {why : Fault} (hc : c.hasNul = false)
    (hb : g.blocked = none) : ¬ NotStarted g c why := by
  rintro (⟨h, -⟩ | ⟨-, e, h, -⟩)
  · rw [hc] at h; cases h
  · rw [hb] at h; cases h

theorem NotStarted.of_blocked {g g₁ : Git} {c : Call} {why : Fault} (hb : g₁.blocked = g.blocked)
    (h : NotStarted g₁ c why) : NotStarted g c why := by
  unfold NotStarted at h ⊢; rw [← hb]; exact h

end Git

end Backdate
