/-!
# Sets of names

A finite set of names, kept in order (by code point) and without repetition:
branches, paths, steps.
-/

namespace Backdate

/-- A name put in its place in an ordered list, unless it is there. -/
def insertName (p : String) : List String → List String
  | [] => [p]
  | q :: qs =>
    if p < q then p :: q :: qs
    else if p = q then q :: qs
    else q :: insertName p qs

theorem mem_insertName {p q : String} {xs : List String} :
    q ∈ insertName p xs ↔ q = p ∨ q ∈ xs := by
  induction xs with
  | nil => simp [insertName]
  | cons x xs ih =>
    simp only [insertName]
    split
    · simp
    · split
      · next h => subst h; simp
      · simp only [List.mem_cons, ih]
        constructor
        · rintro (h | h | h) <;> simp [h]
        · rintro (h | h | h) <;> simp [h]

theorem pairwise_insertName {p : String} {xs : List String} (h : xs.Pairwise (· < ·)) :
    (insertName p xs).Pairwise (· < ·) := by
  induction xs with
  | nil => simp [insertName]
  | cons x xs ih =>
    rw [List.pairwise_cons] at h
    simp only [insertName]
    split
    · next hp =>
      refine List.pairwise_cons.2 ⟨fun y hy => ?_, List.pairwise_cons.2 h⟩
      rcases List.mem_cons.1 hy with rfl | hy
      · exact hp
      · exact String.lt_trans hp (h.1 y hy)
    · split
      · exact List.pairwise_cons.2 h
      · next hp hne =>
        refine List.pairwise_cons.2 ⟨fun y hy => ?_, ih h.2⟩
        rcases mem_insertName.1 hy with rfl | hy
        · exact Std.lt_of_le_of_ne (String.not_lt.1 hp) (fun he => hne he.symm)
        · exact h.1 y hy

/-- A finite set of names, in order. -/
structure Names where
  toList : List String
  sorted : toList.Pairwise (· < ·)
  deriving DecidableEq

namespace Names

def empty : Names := ⟨[], .nil⟩

instance : EmptyCollection Names := ⟨empty⟩

instance : Inhabited Names := ⟨∅⟩

instance : Membership String Names := ⟨fun s p => p ∈ s.toList⟩

instance (p : String) (s : Names) : Decidable (p ∈ s) := inferInstanceAs (Decidable (p ∈ s.toList))

def insert (s : Names) (p : String) : Names := ⟨insertName p s.toList, pairwise_insertName s.sorted⟩

def insertMany (s : Names) (ps : List String) : Names := ps.foldl insert s

def ofList (ps : List String) : Names := empty.insertMany ps

/-- The names of a set that a test accepts. -/
def filter (s : Names) (f : String → Bool) : Names := ⟨s.toList.filter f, s.sorted.filter f⟩

def erase (s : Names) (p : String) : Names := s.filter (· != p)

def isEmpty (s : Names) : Bool := s.toList.isEmpty

theorem mem_insert {s : Names} {p q : String} : q ∈ s.insert p ↔ q = p ∨ q ∈ s := mem_insertName

theorem mem_insertMany {s : Names} {ps : List String} {q : String} :
    q ∈ s.insertMany ps ↔ q ∈ ps ∨ q ∈ s := by
  induction ps generalizing s with
  | nil => simp [insertMany]
  | cons p ps ih =>
    simp only [insertMany, List.foldl_cons] at ih ⊢
    rw [ih, mem_insert, List.mem_cons]
    constructor
    · rintro (h | h | h) <;> simp [h]
    · rintro ((h | h) | h) <;> simp [h]

theorem mem_filter {s : Names} {f : String → Bool} {q : String} :
    q ∈ s.filter f ↔ q ∈ s ∧ f q = true := List.mem_filter

end Names

end Backdate
