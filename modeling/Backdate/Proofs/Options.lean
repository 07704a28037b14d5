import Backdate.Proofs.Attribution
import Backdate.Proofs.Completion

/-!
# Texts that git may read as options

Git reads an argument that begins with `-` as an option, unless it stands after
`--` or is the value of an option. Paths stand after `--` and messages after
`-m`, but the branch of a checkout, the source of a merge and the name of a tag
stand **bare**, and the check of a plan does not look how they begin.

* `phrases`: the calls of an operation once more, with each word marked as part
  of the command or as handed over by the operation (`phrases_args`).
* `guarded_of_bare`, `bare_of_guarded`: no word that is handed over is an option
  if and only if no bare one begins with `-`.
* `plan_guarded_iff`: so for the whole replay of a plan.
-/

namespace Backdate

open Calendar

/-- Whether a text begins as an option does. -/
def Text.isOption (s : String) : Bool := "-".toList.isPrefixOf s.toList

/-- A word of a command: part of the command itself, a text that is handed over as it is, or a name
made from one. -/
inductive Word where
  | fixed (s : String)
  | given (s : String)
  | made (s : String)
  deriving DecidableEq, Repr

def Word.text : Word → String
  | .fixed s | .given s | .made s => s

/-! ## Guarded words -/

namespace Word

/-- **A text after some arguments is not read as an option**: one of them is `--`, the last of them
takes it as its value, or it does not begin as an option does. -/
def shields (before : List String) (s : String) : Bool :=
  before.contains "--" || before.getLast? == some "-m" || before.getLast? == some "-b" ||
    !Text.isOption s

/-- Every text that is handed over is shielded by the arguments before it. -/
def Guarded (ws : List Word) : Prop :=
  ∀ before s after, ws = before ++ .given s :: after → shields (before.map text) s = true

/-- The check for it, from left to right. -/
def guardedAfter (before : List String) : List Word → Bool
  | [] => true
  | .given s :: ws => shields before s && guardedAfter (before ++ [s]) ws
  | .fixed s :: ws | .made s :: ws => guardedAfter (before ++ [s]) ws

theorem guardedAfter_iff {front : List String} {ws : List Word} :
    guardedAfter front ws = true ↔ ∀ before s after, ws = before ++ .given s :: after →
      shields (front ++ before.map text) s = true := by
  induction ws generalizing front with
  | nil => exact iff_of_true rfl fun before s after h => absurd h (by simp)
  | cons w ws ih =>
    -- a split of the words is at the first of them, or a split of the others
    have hothers : guardedAfter (front ++ [w.text]) ws = true ↔ ∀ before s after,
        ws = before ++ .given s :: after →
          shields (front ++ (w :: before).map text) s = true := by
      rw [ih]; simp only [List.append_assoc, List.map_cons, List.singleton_append]
    have hsplit : (∀ before s after, w :: ws = before ++ .given s :: after →
          shields (front ++ before.map text) s = true) ↔
        (∀ s, w = .given s → shields front s = true) ∧
          guardedAfter (front ++ [w.text]) ws = true := by
      rw [hothers]
      constructor
      · intro h
        refine ⟨fun s hw => ?_, fun before s after hws => ?_⟩
        · have hfirst := h [] s ws (by rw [hw]; rfl)
          simpa using hfirst
        · exact h (w :: before) s after (by rw [hws]; rfl)
      · rintro ⟨hfirst, hrest⟩ before s after heq
        cases before with
        | nil =>
          obtain ⟨hw, -⟩ := List.cons.inj heq
          simpa using hfirst s hw
        | cons b before =>
          obtain ⟨rfl, hws⟩ := List.cons.inj heq
          exact hrest before s after hws
    rw [hsplit]
    cases w with
    | given s => simp [guardedAfter, text]
    | fixed s => simp [guardedAfter, text]
    | made s => simp [guardedAfter, text]

theorem guarded_iff {ws : List Word} : Guarded ws ↔ guardedAfter [] ws = true := by
  rw [guardedAfter_iff]; rfl

end Word

/-! ## The calls of git, word by word -/

/-- The words of the calls that an operation may make of git. -/
def Git.phrases : Operation → List (List Word)
  | .switch branch =>
    [[.fixed "checkout", .fixed "-q", .given branch, .fixed "--"],
     [.fixed "rev-parse", .fixed "--verify", .fixed "--quiet", .made ("refs/heads/" ++ branch)],
     [.fixed "checkout", .fixed "-q", .fixed "-b", .given branch]]
  | .stage paths => paths.map fun path => [.fixed "add", .fixed "--", .given path]
  | .stageAllExcept excluded =>
    [.fixed "add", .fixed "-A", .fixed "--", .fixed "."] ::
      excluded.map fun path => [.fixed "reset", .fixed "-q", .fixed "--", .given path]
  | .remove path => [[.fixed "rm", .fixed "-q", .fixed "-r", .fixed "--", .given path]]
  | .commit message _ allowEmpty =>
    [[.fixed "commit", .fixed "-q", .fixed "-m", .given message] ++
      if allowEmpty then [.fixed "--allow-empty"] else []]
  | .merge source message _ =>
    [[.fixed "merge", .fixed "--no-ff", .fixed "-m", .given message, .given source],
     [.fixed "merge", .fixed "--abort"]]
  | .tag name message _ =>
    [[.fixed "tag", .fixed "-a", .given name, .fixed "-m", .given message]]

/-- **The words are those of the calls.** -/
theorem Git.phrases_args (op : Operation) :
    (phrases op).map (·.map Word.text) = (calls op).map Call.args := by
  cases op with
  | switch branch => rfl
  | stage paths => simp [phrases, calls, Call.add, Word.text]
  | stageAllExcept excluded => simp [phrases, calls, Call.addAll, Call.reset, Word.text]
  | remove path => rfl
  | commit message stamp allowEmpty => cases allowEmpty <;> rfl
  | merge source message stamp => rfl
  | tag name message stamp => rfl

/-- The texts that an operation hands over bare. -/
def Operation.bare : Operation → List String
  | .switch branch => [branch]
  | .merge source _ _ => [source]
  | .tag name _ _ => [name]
  | .stage _ | .stageAllExcept _ | .remove _ | .commit .. => []

open Word in
/-- **Only bare texts can be read as options.** -/
theorem Git.guarded_of_bare {op : Operation} (h : ∀ s ∈ op.bare, Text.isOption s = false) :
    ∀ ws ∈ phrases op, Guarded ws := by
  intro ws hws
  rw [guarded_iff]
  cases op with
  | switch branch =>
    have hbranch : Text.isOption branch = false := h branch (List.mem_singleton.2 rfl)
    simp only [phrases, List.mem_cons, List.not_mem_nil, or_false] at hws
    rcases hws with rfl | rfl | rfl <;> simp [guardedAfter, shields, hbranch]
  | stage paths =>
    obtain ⟨path, -, rfl⟩ := List.mem_map.1 hws
    simp [guardedAfter, shields]
  | stageAllExcept excluded =>
    rcases List.mem_cons.1 hws with rfl | hws
    · rfl
    · obtain ⟨path, -, rfl⟩ := List.mem_map.1 hws
      simp [guardedAfter, shields]
  | remove path =>
    rw [List.mem_singleton.1 hws]
    simp [guardedAfter, shields]
  | commit message stamp allowEmpty =>
    rw [List.mem_singleton.1 hws]
    cases allowEmpty <;> simp [guardedAfter, shields]
  | merge source message stamp =>
    have hsource : Text.isOption source = false := h source (List.mem_singleton.2 rfl)
    simp only [phrases, List.mem_cons, List.not_mem_nil, or_false] at hws
    rcases hws with rfl | rfl <;> simp [guardedAfter, shields, hsource]
  | tag name message stamp =>
    have hname : Text.isOption name = false := h name (List.mem_singleton.2 rfl)
    rw [List.mem_singleton.1 hws]
    simp [guardedAfter, shields, hname]

/-! ## Events -/

/-- The texts that an event hands over bare: its branch, and the source of a merge or the name of a
tag. -/
def Event.bare (e : Event) : List String :=
  e.branch ::
    match e.action with
    | .merge source => [source]
    | .tag name _ => [name]
    | .change .. | .deletion .. => []

/-- The words of a call that an event may make. -/
def Replayer.Phrased (r : Replayer) (e : Event) (ws : List Word) : Prop :=
  ∃ m, ∃ op ∈ r.operations e m, ws ∈ Git.phrases op

/-- **No text of an event is an option in a call**: the call is one of the event, and every text
that the event hands over in it is shielded. -/
structure Call.Guarded (r : Replayer) (e : Event) (c : Call) : Prop where
  phrased : ∃ ws, r.Phrased e ws ∧ ws.map Word.text = c.args
  guarded : ∀ ws, r.Phrased e ws → ws.map Word.text = c.args → Word.Guarded ws

/-- A preparation hands nothing over bare. -/
theorem Operation.bare_of_prepares {op : Operation} (h : op.prepares = true) : op.bare = [] := by
  cases op with
  | stage paths => rfl
  | stageAllExcept excluded => rfl
  | remove path => rfl
  | switch branch => cases h
  | commit message stamp allowEmpty => cases h
  | merge source message stamp => cases h
  | tag name message stamp => cases h

theorem Replayer.bare_of_mem_operations {r : Replayer} {e : Event} {m : Moment} {op : Operation}
    (h : op ∈ r.operations e m) : ∀ s ∈ op.bare, s ∈ e.bare := by
  intro s hs
  rcases List.mem_cons.1 h with rfl | h
  · rw [List.mem_singleton.1 hs]; exact List.mem_cons_self
  rcases List.mem_append.1 h with h | h
  · rw [Operation.bare_of_prepares (r.prepares_preparations e op h)] at hs
    exact absurd hs List.not_mem_nil
  · rw [List.mem_singleton.1 h] at hs
    refine List.mem_cons_of_mem _ ?_
    unfold Event.writing at hs
    split at hs
    · exact absurd hs List.not_mem_nil
    · exact absurd hs List.not_mem_nil
    · next heq => rw [heq]; exact hs
    · next heq => rw [heq]; exact hs

theorem mergeMessage_ne {s : String} (source target : String) (hs : s.toList.head? = some '-') :
    mergeMessage source target ≠ s := by
  intro heq
  have hopen : "Merge branch '".toList.head? = some 'M' := by decide
  have hfirst : (mergeMessage source target).toList.head? = some 'M' := by
    unfold mergeMessage
    simp only [String.toList_append, List.head?_append]
    rw [hopen]; rfl
  rw [heq, hs] at hfirst
  exact absurd hfirst (by decide)

/-- The message of a merge does not shield what follows it. -/
theorem isOption_of_shields_merge {message source : String} (hends : message ≠ "--")
    (hm : message ≠ "-m") (hb : message ≠ "-b")
    (h : Word.shields ["merge", "--no-ff", "-m", message] source = true) :
    Text.isOption source = false := by
  simpa [Word.shields, hends.symm, hm, hb] using h

namespace Git

variable {r : Replayer} {e : Event} {g : Git}

/-- **An event that hands over no option bare makes guarded calls only.** -/
theorem Course.guarded {ps : List Process} {res : Except Fault Report} (h : Course r e g ps res)
    (hbare : ∀ s ∈ e.bare, Text.isOption s = false) : ∀ p ∈ ps, p.call.Guarded r e := by
  intro p hp
  refine ⟨?_, ?_⟩
  · obtain ⟨m, -, hmem⟩ := h.asked p hp
    obtain ⟨op, hop, hc⟩ := List.mem_flatMap.1 hmem
    have hargs : p.call.args ∈ (phrases op).map (·.map Word.text) := by
      rw [phrases_args]; exact List.mem_map_of_mem hc
    obtain ⟨ws, hws, heq⟩ := List.mem_map.1 hargs
    exact ⟨ws, ⟨m, op, hop, hws⟩, heq⟩
  · rintro ws ⟨m, op, hop, hws⟩ -
    refine guarded_of_bare (fun s hs => ?_) ws hws
    exact hbare s (Replayer.bare_of_mem_operations hop s hs)

/-- **An event whose checkout and writing are guarded hands over no option bare.** -/
theorem bare_of_guarded {m : Moment} {stamp : Stamp} (hgo : (Call.checkout e.branch).Guarded r e)
    (hwrite : (e.writingCall stamp).Guarded r e) : ∀ s ∈ e.bare, Text.isOption s = false := by
  have hops : Operation.switch e.branch ∈ r.operations e m ∧
      e.writing (r.stamp e.author m) ∈ r.operations e m := by simp [Replayer.operations]
  intro s hs
  rcases List.mem_cons.1 hs with rfl | hs
  · have hguarded := hgo.guarded _ ⟨m, _, hops.1, List.mem_cons_self⟩ rfl
    rw [Word.guarded_iff] at hguarded
    simpa [Word.guardedAfter, Word.shields] using hguarded
  · have hphrases : ∀ ws ∈ phrases (e.writing (r.stamp e.author m)), r.Phrased e ws :=
      fun ws hws => ⟨m, _, hops.2, hws⟩
    rcases e with ⟨branch, author, time, action⟩
    cases action with
    | change message paths => exact absurd hs List.not_mem_nil
    | deletion message paths => exact absurd hs List.not_mem_nil
    | merge source =>
      rw [List.mem_singleton.1 hs]
      have hguarded := hwrite.guarded _ (hphrases _ List.mem_cons_self) rfl
      -- the message before the source does not shield it
      have hsource := hguarded [.fixed "merge", .fixed "--no-ff", .fixed "-m",
        .given (mergeMessage source branch)] source [] rfl
      exact isOption_of_shields_merge (mergeMessage_ne _ _ (by decide))
        (mergeMessage_ne _ _ (by decide)) (mergeMessage_ne _ _ (by decide)) hsource
    | tag name message =>
      rw [List.mem_singleton.1 hs]
      have hguarded := hwrite.guarded _ (hphrases _ List.mem_cons_self) rfl
      have hname := hguarded [.fixed "tag", .fixed "-a"] name _ rfl
      simpa [Word.shields, Word.text] using hname

/-- An event to which git agrees goes to its branch and writes. -/
theorem Course.agreed {ps : List Process} {report : Report} (h : Course r e g ps (.ok report))
    (hps : ∀ p ∈ ps, p.reply.succeeded = true) :
    (∃ p ∈ ps, p.call = .checkout e.branch) ∧
      ∃ m, ∃ p ∈ ps, p.call = e.writingCall (r.stamp e.author m) := by
  cases h with
  | barred _ hs ho =>
    obtain ⟨heq, -⟩ := (does_switch hs).smooth rfl hps
    cases heq; cases ho
  | @written m _ _ _ _ _ _ _ _ _ hs _ hw =>
    obtain ⟨-, p, hp, hcall⟩ := (does_switch hs).smooth rfl fun p hp => hps p (by simp [hp])
    rcases does_writing hw with ⟨_, -, hno⟩ | ⟨reply, rest, _, rfl, -⟩
    · cases hno
    · exact ⟨⟨p, by simp [hp], hcall⟩, m, ⟨e.writingCall (r.stamp e.author m), reply⟩, by simp, rfl⟩

/-! ## Plans -/

/-- **When no text of a plan is read as an option.** Replay an accepted plan, with whatever is
excluded besides. Whatever git replies, an event that hands over no option bare makes guarded calls
only. If there is no NUL in its texts, all calls of the replay are guarded under every git if and
only if no branch, merge source or tag name of the plan begins with `-`; the check of the plan
ensures this for none of them. -/
theorem plan_guarded_iff {text : String} {p : Plan} (h : Plan.parse text = .ok p)
    (own : List String) :
    let r : Replayer := { p.replayer with excluded := p.exclude ++ own }
    (∀ g : Git, ∀ ep ∈ r.episodes p.events g, (∀ s ∈ ep.event.bare, Text.isOption s = false) →
      ∀ q ∈ processes ep, q.call.Guarded r ep.event) ∧
    ((∀ e ∈ p.events, ∀ s ∈ r.texts e, Text.hasNul s = false) →
      ((∀ g : Git, g.blocked = none → ∀ ep ∈ r.episodes p.events g, ∀ q ∈ processes ep,
          q.call.Guarded r ep.event) ↔
        ∀ e ∈ p.events, ∀ s ∈ e.bare, Text.isOption s = false)) := by
  intro r
  have hguarded : ∀ g : Git, ∀ ep ∈ r.episodes p.events g,
      (∀ s ∈ ep.event.bare, Text.isOption s = false) →
        ∀ q ∈ processes ep, q.call.Guarded r ep.event :=
    fun g ep hep hbare => (course_of_mem hep).2.guarded hbare
  refine ⟨hguarded, fun hnul => ⟨fun hall e he => ?_, fun hbare g _ ep hep => ?_⟩⟩
  · -- git agrees to everything, so the event comes to both of its bare calls
    have happly : ∀ e ∈ p.events, ∀ g : Git, g.blocked = none →
        ∃ report g', (r.apply e).run g = (.ok report, g') ∧ g'.blocked = none := by
      intro e he g hb
      obtain ⟨m, hm⟩ := Plan.resolves_of_parse h e he
      have hnone : (r.texts e).any Text.hasNul = false :=
        List.any_eq_false.2 fun s hs => by rw [hnul e he s hs]; simp
      exact apply_reports hm hnone hb
    have hends : ∃ total, (r.replayOnto {} p.events ({} : Git)).result = .ok total :=
      Replayer.result_of_reported (P := fun g : Git => g.blocked = none) rfl happly
    obtain ⟨total, hok⟩ := hends
    obtain ⟨ep, hep, rfl, report, hreport⟩ := Replayer.reported_of_result hok e he
    obtain ⟨hdoes, hcourse⟩ := course_of_mem hep
    have hserved := hdoes.ran.served
    rw [before_script rfl ep hep] at hserved
    rw [hreport] at hcourse
    obtain ⟨⟨q, hq, hgo⟩, m, q', hq', hwrite⟩ := hcourse.agreed hserved.of_nil.2
    have hgo' := hall {} rfl ep hep q hq
    have hwrite' := hall {} rfl ep hep q' hq'
    rw [hgo] at hgo'
    rw [hwrite] at hwrite'
    exact bare_of_guarded (m := m) hgo' hwrite'
  · exact hguarded g ep hep (hbare ep.event (Replayer.mem_episodes hep).1)

set_option maxRecDepth 20000 in
/-- A plan that is accepted although its branch is an option: git is asked for a forced checkout. -/
theorem branch_read_as_option :
    let text := "[anchor]\nstart = \"2025-10-18T09:00:00\"\n" ++
      "[authors.first]\nname = \"Ada\"\nemail = \"a@x\"\n" ++
      "[authors.second]\nname = \"Grace\"\nemail = \"g@x\"\n" ++
      "[[events]]\nkind = \"change\"\nbranch = \"-f\"\nauthor = \"first\"\n" ++
      "day = 0\nhour = 9\nmessage = \"start\"\n"
    ∃ p, Plan.parse text = .ok p ∧
      let r : Replayer := { p.replayer with excluded := p.exclude ++ [] }
      ["checkout", "-q", "-f", "--"] ∈
        (r.replay p.events ({} : Git)).tool.ran.map (·.call.args) ∧
      ¬ ∀ g : Git, g.blocked = none → ∀ ep ∈ r.episodes p.events g, ∀ q ∈ processes ep,
        q.call.Guarded r ep.event := by
  intro text
  let p : Plan := ⟨⟨⟨2025, 10, 18, by decide⟩, ⟨9, 0, 0, by decide, by decide, by decide⟩⟩,
    ⟨⟨"Ada", "a@x"⟩, ⟨"Grace", "g@x"⟩⟩, [],
    [⟨none, ⟨"-f", .first, ⟨0, 9, 0⟩, .change "start" .nothing⟩⟩]⟩
  have hchars : ∃ cs, text.toList = cs ∧ Plan.ofChars cs = some p := by
    refine ⟨?cs, ?hcs, ?hp⟩
    case hcs =>
      simp only [text, String.toList_append, String.reduceToList, List.cons_append, List.nil_append]
      exact rfl
    case hp => decide +kernel
  obtain ⟨cs, hcs, hp⟩ := hchars
  have hparse : Plan.parse text = .ok p := Plan.parse_of_chars hcs hp
  refine ⟨p, hparse, by decide +kernel, fun hall => ?_⟩
  have hnone := ((plan_guarded_iff hparse []).2 (by decide)).1 hall _ List.mem_cons_self
  exact absurd (hnone "-f" List.mem_cons_self) (by decide)

end Git

end Backdate
