import Backdate.Proofs.Encoding
import Backdate.Proofs.Handover

/-!
# Names on a path

The names of a canonical path are parts of the path that was followed
(`mem_of_walk`). So what a file tree makes of a path, seen from a directory, has
no NUL in it unless the name of the directory has one (`hasNul_relative`).
-/

namespace Backdate

/-- Nothing is left of the item that a list is cut at, and nothing is added to its parts. -/
theorem mem_splitOn {α : Type} [BEq α] [LawfulBEq α] {c : α} {xs part : List α}
    (h : part ∈ xs.splitOn c) : c ∉ part ∧ part ⊆ xs := by
  induction xs generalizing part with
  | nil =>
    rw [List.splitOn_nil, List.mem_singleton] at h
    simp [h]
  | cons d ds ih =>
    rw [List.splitOn_cons_eq_if_modifyHead] at h
    have hlater : ∀ {part}, part ∈ ds.splitOn c → c ∉ part ∧ part ⊆ d :: ds := by
      intro part hin
      exact ⟨(ih hin).1, List.subset_cons_of_subset d (ih hin).2⟩
    split at h
    · rcases List.mem_cons.1 h with rfl | h
      · exact ⟨List.not_mem_nil, List.nil_subset _⟩
      · exact hlater h
    · -- the first part is longer by the item that was read
      next hne =>
      obtain ⟨first, parts, hparts⟩ := List.exists_cons_of_ne_nil (List.splitOn_ne_nil c ds)
      rw [hparts, List.modifyHead_cons] at h
      rw [hparts] at hlater
      rcases List.mem_cons.1 h with rfl | h
      · obtain ⟨hclean, hsub⟩ := hlater List.mem_cons_self
        refine ⟨?_, List.cons_subset.2 ⟨List.mem_cons_self, hsub⟩⟩
        simpa [hclean] using Ne.symm (by simpa using hne)
      · exact hlater (List.mem_cons_of_mem first h)

/-! ## NUL -/

namespace Text

theorem zero_not_mem_encode {s : String} (h : hasNul s = false) : (0 : UInt8) ∉ encode s :=
  fun hin => hasNul_eq_false_iff.1 h (mem_of_mem_encode (by decide) hin)

theorem hasNul_decodeLossy {bs : List UInt8} (h : (0 : UInt8) ∉ bs) :
    hasNul (decodeLossy bs) = false :=
  hasNul_eq_false_iff.2 fun hin => h (mem_of_mem_decodeLossy (by decide) hin)

theorem hasNul_intercalate {names : List String} (h : ∀ name ∈ names, hasNul name = false) :
    hasNul (String.intercalate "/" names) = false := by
  have hslash : Without '\x00' "/" := by decide
  exact hasNul_eq_false_iff.2 <|
    hslash.intercalate fun name hname => hasNul_eq_false_iff.1 (h name hname)

end Text

/-- The parts of a path, seen from a directory, are those of the two. -/
theorem Bytes.mem_parts_join {directory path part : Bytes}
    (h : part ∈ (directory.join path).parts) : part ∈ directory.parts ∨ part ∈ path.parts := by
  unfold join at h
  split at h
  · exact .inr h
  · unfold parts at h ⊢
    rw [List.splitOn_append_cons_self] at h
    exact List.mem_append.1 h

namespace FileTree

variable {t : FileTree} {directory : Bytes}

/-- A way is made of the names that it started from and of the parts that it follows. -/
theorem mem_of_walk {here parts there : List Bytes} {name : Bytes}
    (h : t.walk here parts = .ok there) (hname : name ∈ there) : name ∈ here ∨ name ∈ parts := by
  induction parts generalizing here with
  | nil => cases h; exact .inl hname
  | cons part parts ih =>
    rw [walk] at h
    have hlater : ∀ {here'}, t.walk here' parts = .ok there → (∀ n ∈ here', n ∈ here ∨ n = part) →
        name ∈ here ∨ name ∈ part :: parts := by
      intro here' h' hsub
      rcases ih h' with hin | hin
      · rcases hsub name hin with hin | rfl
        · exact .inl hin
        · exact .inr List.mem_cons_self
      · exact .inr (List.mem_cons_of_mem part hin)
    split at h
    · cases h
    · cases h
    · split at h
      · exact hlater h fun n hn => .inl hn
      · split at h
        · exact hlater h fun n hn => .inl (List.dropLast_subset _ hn)
        · split at h
          · cases h
          · split at h
            · refine hlater h fun n hn => ?_
              rcases List.mem_append.1 hn with hn | hn
              · exact .inl hn
              · exact .inr (List.mem_singleton.1 hn)
            · cases h

/-- What makes a path lead to its canonical path. -/
theorem canonical_eq_ok {path : Bytes} {names : List Bytes} :
    t.canonical directory path = .ok names ↔
      0 ∉ path ∧ path ≠ [] ∧ t.walk [] (directory.join path).parts = .ok names := by
  unfold canonical
  by_cases hnul : 0 ∈ path
  · simp [hnul]
  by_cases hempty : path = []
  · subst hempty
    simp
  · simp [hnul, hempty]

/-- The names of a canonical path are parts of the path and of the directory. -/
theorem mem_of_canonical {path name : Bytes} {names : List Bytes}
    (h : t.canonical directory path = .ok names) (hname : name ∈ names) :
    name ∈ directory.parts ∨ name ∈ path.parts := by
  rcases mem_of_walk (canonical_eq_ok.1 h).2.2 hname with hin | hin
  · exact absurd hin List.not_mem_nil
  · exact Bytes.mem_parts_join hin

/-- No name on a canonical path has a NUL in it, if there is none on the way to the directory. -/
theorem zero_not_mem_of_canonical {path name : Bytes} {names : List Bytes} (hd : 0 ∉ directory)
    (h : t.canonical directory path = .ok names) (hname : name ∈ names) : 0 ∉ name := by
  rcases mem_of_canonical h hname with hin | hin
  · exact fun hnul => hd ((mem_splitOn hin).2 hnul)
  · exact fun hnul => (canonical_eq_ok.1 h).1 ((mem_splitOn hin).2 hnul)

/-- A directory that can be entered is there. -/
theorem hasDirectory_of_open {path : Bytes} (h : t.blocked? directory path = none) :
    t.hasDirectory directory path = true := by
  unfold blocked? access at h
  unfold hasDirectory
  split at h
  · cases h
  · next entries haccess =>
    split at haccess
    · cases haccess
    cases hcanonical : t.canonical directory path with
    | error why => rw [hcanonical] at haccess; cases haccess
    | ok here =>
      rw [hcanonical] at haccess
      cases hat : t.at? here with
      | none => simp [hat] at haccess
      | some sub =>
        simp only [hat, Option.elim_some, Except.ok.injEq] at haccess
        simp only [hat, haccess]
  · cases h

/-- **The way from one path to another has no NUL in it.** -/
theorem hasNul_relative {file top : Bytes} {way : String} (hd : 0 ∉ directory)
    (h : t.relative? directory file top = some way) : Text.hasNul way = false := by
  unfold relative? at h
  split at h
  · next names _ hfile _ =>
    split at h
    · cases h
      refine Text.hasNul_intercalate fun part hpart => ?_
      obtain ⟨name, hname, rfl⟩ := List.mem_map.1 hpart
      exact Text.hasNul_decodeLossy (zero_not_mem_of_canonical hd hfile (List.mem_of_mem_drop hname))
    · cases h
  · cases h

end FileTree

end Backdate
