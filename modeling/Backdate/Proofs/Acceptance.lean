import Backdate.Proofs.Encoding
import Backdate.Proofs.Validity
import Backdate.Replay.Run

/-!
# Accepted plans

What the check of a plan promises to its replay: every event has its moment
(`resolves_of_parse`). `parse_of_chars` is the way to the plan of a given text, and
`load_of_parse` with `read_encode` to that of a file.
-/

namespace Backdate

/-- What the characters of a document say. -/
def Toml.document (cs : List Char) : Option Entries :=
  let cs := match cs with
    | '\ufeff' :: cs => cs
    | cs => cs
  (statements (cs.length + 1) {} cs).map Tables.values

theorem Toml.parse_eq_document (text : String) : parse text = document text.toList := rfl

namespace Plan

/-- The replayer of a plan. -/
def replayer (p : Plan) : Replayer := ⟨p.anchor, p.authors, p.exclude⟩

/-- **A checked plan is on the calendar**: every event has its moment. -/
theorem resolves_of_parse {text : String} {p : Plan} (h : parse text = .ok p) :
    ∀ e ∈ p.events, ∃ m, p.anchor.resolve e.time = .ok m := by
  intro e he
  obtain ⟨spec, hvalid, rfl⟩ := valid_of_parse h e he
  exact hvalid.moment

/-! ## The plan of a given text -/

/-- The plan that characters spell. -/
def ofChars (cs : List Char) : Option Plan := do
  let es ← Toml.document cs
  let s ← (Schema.plan es).toOption
  (ofSpec s).toOption

/-- A text is taken apart once: what it spells is a matter of its characters. -/
theorem parse_of_chars {text : String} {cs : List Char} {p : Plan} (hcs : text.toList = cs)
    (h : ofChars cs = some p) : parse text = .ok p := by
  have hoption : (parse text).toOption = ofChars text.toList := by
    unfold parse readSpec ofChars
    rw [Toml.parse_eq_document]
    cases Toml.document text.toList with
    | none => rfl
    | some es =>
      simp only [Option.bind_eq_bind, Option.bind_some]
      cases Schema.plan es <;> rfl
  rw [hcs, h] at hoption
  cases hp : parse text with
  | error why => rw [hp] at hoption; cases hoption
  | ok q => rw [hp] at hoption; cases hoption; rfl

/-- A plan that is loaded is what the text of its file spells. -/
theorem parse_of_load {t : FileTree} {directory path : String} {p : Plan}
    (h : load t directory path = .ok p) :
    ∃ text, t.read directory path = .ok text ∧ parse text = .ok p := by
  unfold load at h
  split at h
  · cases h
  · split at h
    · cases h
    · cases h; exact ⟨_, ‹_›, ‹_›⟩

theorem load_of_parse {t : FileTree} {directory path text : String} {p : Plan}
    (hread : t.read directory path = .ok text) (h : parse text = .ok p) :
    load t directory path = .ok p := by
  unfold load
  rw [hread]
  simp only [h]

end Plan

/-- A text is read back from its file. -/
theorem FileTree.read_encode {t : FileTree} {directory path : Bytes} {text : String}
    (h : t.access directory path = .ok (.file (Text.encode text))) :
    t.read directory path = .ok text := by
  unfold read
  rw [h]
  simp only [Text.decode?_encode]

end Backdate
