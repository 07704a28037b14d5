import Backdate.Proofs.Paths

/-!
# The way to a file

The way from a directory to a file below it is what the canonical path of the one
lacks to that of the other. However the two are spelled, it is the same way, and
it has plain names only (`relative_identifies`). The way is a text, and what is no
UTF-8 in a name is replaced in it. So it leads from the directory to the file where
the two are spelled as texts, and otherwise if and only if every name on it is UTF-8.

* `pathParts_intercalate`, `parts_encode`: names that are joined by slashes are cut
  at them again, and a text is cut like its bytes;
* `Standing`: every name of a canonical path stands in the directory before it. This
  is kept by following a path (`standing_walk`), and it is all that is needed to
  follow the names themselves (`walk_standing`).
-/

namespace Backdate

/-! ## Cutting at slashes -/

theorem splitOn_append_of_not_mem {α : Type} [BEq α] [LawfulBEq α] {c : α} {xs : List α}
    (h : c ∉ xs) (ys : List α) :
    (xs ++ ys).splitOn c = (ys.splitOn c).modifyHead (xs ++ ·) := by
  induction xs with
  | nil => exact (congrFun List.modifyHead_id _).symm
  | cons x xs ih =>
    obtain ⟨hne, hrest⟩ := not_or.1 (mt List.mem_cons.2 h)
    rw [List.cons_append, List.splitOn_cons_eq_if_modifyHead, ih hrest, List.modifyHead_modifyHead,
      if_neg (by simpa using Ne.symm hne)]
    rfl

/-- **Names that are joined by slashes are the parts of the path.** -/
theorem pathParts_intercalate {names : List String} (hsome : names ≠ [])
    (h : ∀ name ∈ names, '/' ∉ name.toList) :
    pathParts (String.intercalate "/" names) = names := by
  have hslash : "/".toList = ['/'] := rfl
  have hclean : ∀ cs ∈ names.map String.toList, '/' ∉ cs := by
    intro cs hcs
    obtain ⟨name, hname, rfl⟩ := List.mem_map.1 hcs
    exact h name hname
  unfold pathParts
  rw [String.toList_intercalate, hslash, List.splitOn_intercalate '/' hclean (by simpa using hsome),
    List.map_map]
  exact (List.map_congr_left fun name _ => String.ofList_toList).trans (List.map_id names)

theorem isAbsolutePath_append {front back : String} (h : front ≠ "") :
    isAbsolutePath (front ++ back) = isAbsolutePath front := by
  obtain ⟨c, cs, hchars⟩ := List.exists_cons_of_ne_nil (show front.toList ≠ [] by simpa using h)
  unfold isAbsolutePath
  rw [String.toList_append, hchars, List.cons_append, List.head?_cons, List.head?_cons]

/-- Names that are joined by slashes make a relative path, unless the first one is empty. -/
theorem isAbsolutePath_intercalate {first : String} (hsome : first ≠ "")
    (hslash : '/' ∉ first.toList) (rest : List String) :
    isAbsolutePath (String.intercalate "/" (first :: rest)) = false := by
  have hfirst : isAbsolutePath first = false := by
    obtain ⟨c, cs, hchars⟩ := List.exists_cons_of_ne_nil (show first.toList ≠ [] by simpa using hsome)
    have hc : c ≠ '/' := by
      rintro rfl
      exact hslash (by rw [hchars]; exact List.mem_cons_self)
    unfold isAbsolutePath
    rw [hchars]
    simpa using hc
  cases rest with
  | nil => rw [String.intercalate_singleton]; exact hfirst
  | cons next rest =>
    rw [String.intercalate_cons_cons, String.append_assoc, isAbsolutePath_append hsome]
    exact hfirst

namespace Bytes

theorem utf8EncodeChar_slash : String.utf8EncodeChar '/' = [slash] := rfl

theorem slash_not_mem_utf8EncodeChar {c : Char} (h : c ≠ '/') :
    slash ∉ String.utf8EncodeChar c := by
  intro hin
  have hcode : c.toNat = slash.toNat := Text.eq_of_mem_utf8EncodeChar (by decide) hin
  exact h (by rw [← Char.ofNat_toNat c, hcode]; rfl)

/-- **A text is cut at slashes like its bytes.** -/
theorem parts_encode (path : String) :
    parts (Text.encode path) = (pathParts path).map Text.encode := by
  have hchars : ∀ cs : List Char, (cs.flatMap String.utf8EncodeChar).splitOn slash =
      (cs.splitOn '/').map (·.flatMap String.utf8EncodeChar) := by
    intro cs
    induction cs with
    | nil => simp
    | cons c cs ih =>
      obtain ⟨first, rest, hparts⟩ := List.exists_cons_of_ne_nil (List.splitOn_ne_nil '/' cs)
      rw [List.flatMap_cons, List.splitOn_cons_eq_if_modifyHead]
      by_cases hc : c = '/'
      · subst hc
        rw [utf8EncodeChar_slash, List.singleton_append, List.splitOn_cons_eq_if_modifyHead, ih]
        rfl
      · rw [splitOn_append_of_not_mem (slash_not_mem_utf8EncodeChar hc), ih, hparts,
          if_neg (by simpa using hc)]
        rfl
  unfold parts pathParts Text.encode
  rw [hchars, List.map_map]
  exact List.map_congr_left fun cs _ => by simp

theorem isAbsolute_encode (path : String) :
    isAbsolute (Text.encode path) = isAbsolutePath path := by
  unfold isAbsolute isAbsolutePath Text.encode
  cases path.toList with
  | nil => rfl
  | cons c cs =>
    obtain ⟨b, bs, hbytes⟩ := List.exists_cons_of_ne_nil (String.utf8EncodeChar_ne_nil (c := c))
    have hiff : b = slash ↔ c = '/' := by
      constructor
      · rintro rfl
        by_contra hc
        exact slash_not_mem_utf8EncodeChar hc (by rw [hbytes]; exact List.mem_cons_self)
      · rintro rfl
        rw [utf8EncodeChar_slash] at hbytes
        exact (List.cons.inj hbytes).1.symm
    rw [List.flatMap_cons, hbytes, List.cons_append, List.head?_cons, List.head?_cons, Bool.eq_iff_iff]
    simpa using hiff

theorem isAbsolute_append {front back : Bytes} (h : front ≠ []) :
    isAbsolute (front ++ back) = front.isAbsolute := by
  obtain ⟨b, bs, rfl⟩ := List.exists_cons_of_ne_nil h
  rfl

/-- The parts of a text are texts. -/
theorem isUtf8_of_mem_parts {path part : Bytes} (h : Text.IsUtf8 path) (hpart : part ∈ path.parts) :
    Text.IsUtf8 part := by
  obtain ⟨s, rfl⟩ := h
  rw [parts_encode] at hpart
  obtain ⟨name, -, rfl⟩ := List.mem_map.1 hpart
  exact ⟨name, rfl⟩

end Bytes

namespace FileTree

variable {t : FileTree} {directory : Bytes} {here there names parts : List Bytes}

/-! ## Following a path -/

theorem walk_append (t : FileTree) (here front back : List Bytes) :
    t.walk here (front ++ back) = (t.walk here front).bind fun there => t.walk there back := by
  induction front generalizing here with
  | nil => rfl
  | cons part front ih =>
    rw [List.cons_append, walk, walk]
    cases t.at? here with
    | none => rfl
    | some sub =>
      cases sub with
      | file content => rfl
      | directory entries =>
        simp only [ih]
        split
        · rfl
        split
        · rfl
        split
        · rfl
        split <;> rfl

/-- A name that is followed, and neither skipped nor taken as a step up. -/
def Plain (name : Bytes) : Prop := name ≠ [] ∧ name ≠ [Bytes.dot] ∧ name ≠ [Bytes.dot, Bytes.dot]

/-- **A name stands in a directory**, and a path can be followed to it. -/
structure Stands (t : FileTree) (here : List Bytes) (name : Bytes) : Prop where
  found : ∃ entries, t.at? here = some (.directory entries) ∧ (entries.lookup name).isSome = true
  plain : Plain name
  short : name.length ≤ maxName

/-- Every name of a path stands in the directory that the names before it lead to. -/
def Standing (t : FileTree) (names : List Bytes) : Prop :=
  ∀ here name, here ++ [name] <+: names → t.Stands here name

theorem standing_nil : t.Standing [] := by
  intro here name h
  exact absurd (List.prefix_nil.1 h) (by simp)

theorem Standing.of_prefix (h : t.Standing names) (hp : here <+: names) : t.Standing here :=
  fun front name hfront => h front name (hfront.trans hp)

theorem Standing.plain (h : t.Standing names) {name : Bytes} (hname : name ∈ names) :
    Plain name := by
  obtain ⟨before, after, rfl⟩ := List.append_of_mem hname
  have hin : before ++ [name] <+: before ++ name :: after := ⟨after, by simp⟩
  exact (h before name hin).plain

theorem Standing.snoc (h : t.Standing here) {name : Bytes} (hname : t.Stands here name) :
    t.Standing (here ++ [name]) := by
  intro front last hfront
  rcases List.prefix_concat_iff.1 hfront with heq | hbefore
  · obtain ⟨rfl, hlast⟩ := List.append_inj' heq rfl
    obtain rfl : last = name := by simpa using hlast
    exact hname
  · exact h front last hbefore

/-- **What a path leads to stands**, if it is followed from what stands. -/
theorem standing_walk (hhere : t.Standing here) (h : t.walk here parts = .ok there) :
    t.Standing there := by
  induction parts generalizing here with
  | nil =>
    cases h
    exact hhere
  | cons part parts ih =>
    rw [walk] at h
    split at h
    · cases h
    · cases h
    next entries hat =>
    split at h
    · exact ih hhere h
    next hskip =>
    split at h
    · exact ih (hhere.of_prefix (List.dropLast_prefix here)) h
    next hup =>
    split at h
    · cases h
    next hlong =>
    split at h
    · next hfound =>
      obtain ⟨hempty, hdot⟩ := not_or.1 hskip
      have hstands : t.Stands here part :=
        ⟨⟨entries, hat, hfound⟩, ⟨hempty, hdot, hup⟩, Nat.le_of_not_lt hlong⟩
      exact ih (hhere.snoc hstands) h
    · cases h

/-- **Names that stand are followed one by one.** -/
theorem walk_standing (h : t.Standing (here ++ names)) :
    t.walk here names = .ok (here ++ names) := by
  induction names generalizing here with
  | nil => rw [List.append_nil]; rfl
  | cons name names ih =>
    have hnext : here ++ name :: names = here ++ [name] ++ names := by simp
    obtain ⟨⟨entries, hat, hfound⟩, ⟨hempty, hdot, hup⟩, hshort⟩ :=
      h here name (by rw [hnext]; exact List.prefix_append _ _)
    rw [walk, hat]
    simp only [hempty, hdot, hup, or_self, if_false, Nat.not_lt.2 hshort, hfound, if_true]
    rw [hnext] at h ⊢
    exact ih h

/-- **Plain names are followed to themselves**, if they are followed at all. -/
theorem eq_of_walk (hplain : ∀ name ∈ names, Plain name) (h : t.walk here names = .ok there) :
    there = here ++ names := by
  induction names generalizing here with
  | nil => cases h; exact (List.append_nil _).symm
  | cons name names ih =>
    obtain ⟨⟨hempty, hdot, hup⟩, hrest⟩ := List.forall_mem_cons.1 hplain
    rw [walk] at h
    split at h
    · cases h
    · cases h
    simp only [hempty, hdot, hup, or_self, if_false] at h
    split at h
    · cases h
    split at h
    · rw [ih hrest h, List.append_assoc, List.singleton_append]
    · cases h

/-! ## Canonical paths -/

theorem standing_canonical {path : Bytes} (h : t.canonical directory path = .ok names) :
    t.Standing names :=
  standing_walk standing_nil (canonical_eq_ok.1 h).2.2

theorem slash_not_mem_of_canonical {path name : Bytes}
    (h : t.canonical directory path = .ok names) (hname : name ∈ names) : Bytes.slash ∉ name := by
  rcases mem_of_canonical h hname with hin | hin <;> exact (mem_splitOn hin).1

/-- The names of a canonical path are texts where the path is. -/
theorem isUtf8_of_canonical {path name : Bytes} (hd : Text.IsUtf8 directory)
    (hp : Text.IsUtf8 path) (h : t.canonical directory path = .ok names) (hname : name ∈ names) :
    Text.IsUtf8 name := by
  rcases mem_of_canonical h hname with hin | hin
  · exact Bytes.isUtf8_of_mem_parts hd hin
  · exact Bytes.isUtf8_of_mem_parts hp hin

/-- **A path is followed on from where it leads to.** -/
theorem canonical_join {top way : Bytes} (htop : t.canonical directory top = .ok here)
    (hway : 0 ∉ way) (hrelative : way.isAbsolute = false) :
    t.canonical directory (top.join way) = t.walk here way.parts := by
  obtain ⟨hnul, hempty, hwalk⟩ := canonical_eq_ok.1 htop
  have hjoin : top.join way = top ++ Bytes.slash :: way := by
    unfold Bytes.join
    rw [hrelative]
    rfl
  -- seen from the directory, the slash comes after the whole path to the top
  have hseen : directory.join (top ++ Bytes.slash :: way) =
      directory.join top ++ Bytes.slash :: way := by
    unfold Bytes.join
    rw [Bytes.isAbsolute_append hempty]
    split
    · rfl
    · rw [List.append_assoc, List.cons_append]
  have hclean : 0 ∉ top ++ Bytes.slash :: way := by
    have hslash : (0 : UInt8) ≠ Bytes.slash := by decide
    simp [hnul, hway, hslash]
  have hparts : (directory.join top ++ Bytes.slash :: way).splitOn Bytes.slash =
      (directory.join top).parts ++ way.parts := List.splitOn_append_cons_self _ _
  rw [hjoin]
  unfold canonical
  rw [if_neg hclean, if_neg (by simp), hseen]
  unfold Bytes.parts at hparts hwalk ⊢
  rw [hparts, walk_append, hwalk]
  rfl

/-- A canonical path written out. -/
def spelled (names : List Bytes) : Bytes := Bytes.slash :: [Bytes.slash].intercalate names

/-- **A canonical path that is written out leads to itself.** -/
theorem canonical_spelled {path : Bytes} (hd : 0 ∉ directory) (elsewhere : Bytes)
    (h : t.canonical directory path = .ok names) :
    t.canonical elsewhere (spelled names) = .ok names := by
  obtain ⟨-, -, hwalk⟩ := canonical_eq_ok.1 h
  -- the path was followed through at least one part, so the root is a directory
  obtain ⟨entries, hroot⟩ : ∃ entries, t.at? [] = some (.directory entries) := by
    obtain ⟨part, parts, hparts⟩ : ∃ part parts, (directory.join path).parts = part :: parts :=
      List.exists_cons_of_ne_nil (List.splitOn_ne_nil _ _)
    rw [hparts, walk] at hwalk
    split at hwalk
    · cases hwalk
    · cases hwalk
    · next entries hat => exact ⟨entries, hat⟩
  have hskip : ∀ parts, t.walk [] ([] :: parts) = t.walk [] parts := by
    intro parts
    rw [walk, hroot]
    simp
  have hnames : t.walk [] (Bytes.parts ([Bytes.slash].intercalate names)) = .ok names := by
    cases names with
    | nil => exact hskip []
    | cons name names =>
      have hcut : Bytes.parts ([Bytes.slash].intercalate (name :: names)) = name :: names :=
        List.splitOn_intercalate _ (fun n hn => slash_not_mem_of_canonical h hn)
          (List.cons_ne_nil name names)
      have hstanding : t.Standing ([] ++ name :: names) := standing_canonical h
      rw [hcut]
      exact walk_standing hstanding
  have hslash : (0 : UInt8) ∉ [Bytes.slash] := by decide
  have hclean : 0 ∉ [Bytes.slash] ++ [Bytes.slash].intercalate names :=
    mt List.mem_append.1 (not_or.2 ⟨hslash, Text.not_mem_intercalate hslash fun name hname =>
      zero_not_mem_of_canonical hd h hname⟩)
  refine canonical_eq_ok.2 ⟨hclean, List.cons_ne_nil _ _, ?_⟩
  have hparts : Bytes.parts (elsewhere.join (spelled names)) =
      [] :: Bytes.parts ([Bytes.slash].intercalate names) := by
    have habsolute : (spelled names).isAbsolute = true := rfl
    unfold Bytes.join
    rw [if_pos habsolute]
    exact List.splitOn_append_cons_self [] _
  rw [hparts, hskip]
  exact hnames

/-! ## The way -/

/-- **The way from one path to another**, by their canonical paths: the names that the first lacks to
the second, if there are any, as texts. -/
theorem relative_eq_some {file top : Bytes} {way : String} :
    t.relative? directory file top = some way ↔
      ∃ fs ts names, t.canonical directory file = .ok fs ∧ t.canonical directory top = .ok ts ∧
        fs = ts ++ names ∧ names ≠ [] ∧
          way = String.intercalate "/" (names.map Text.decodeLossy) := by
  unfold relative?
  constructor
  · intro h
    split at h
    · next fs ts hfile htop =>
      split at h
      · next hbelow =>
        obtain ⟨hstart, hlength⟩ := hbelow
        obtain ⟨names, hnames⟩ := List.isPrefixOf_iff_prefix.1 hstart
        have hdrop : fs.drop ts.length = names := by rw [← hnames, List.drop_left]
        refine ⟨fs, ts, names, hfile, htop, hnames.symm, ?_, ?_⟩
        · rintro rfl
          rw [List.append_nil] at hnames
          rw [hnames] at hlength
          omega
        · rw [← hdrop]
          exact (Option.some.inj h).symm
      · cases h
    · cases h
  · rintro ⟨fs, ts, names, hfile, htop, rfl, hsome, rfl⟩
    have hlength : ts.length < (ts ++ names).length := by
      have hpos : 0 < names.length := List.length_pos_iff.2 hsome
      rw [List.length_append]
      omega
    have hstart : ts.isPrefixOf (ts ++ names) = true :=
      List.isPrefixOf_iff_prefix.2 (List.prefix_append ts names)
    rw [hfile, htop]
    simp only [hstart, hlength, and_self, if_true, List.drop_left]

/-- A name that is plain is shown as one. -/
theorem Plain.decodeLossy {name : Bytes} (h : Plain name) :
    Text.decodeLossy name ≠ "" ∧ Text.decodeLossy name ≠ "." ∧ Text.decodeLossy name ≠ ".." := by
  have hshown : ∀ s : String, Char.ofNat 0xFFFD ∉ s.toList → name ≠ Text.encode s →
      Text.decodeLossy name ≠ s :=
    fun s hs hne heq => hne (Text.eq_encode_of_decodeLossy heq hs)
  exact ⟨hshown "" (by decide) h.1, hshown "." (by decide) h.2.1, hshown ".." (by decide) h.2.2⟩

/-- What is shown of a plain name is a plain name. -/
theorem Plain.shown {name : Bytes} (h : Plain name) :
    Plain (Text.encode (Text.decodeLossy name)) := by
  obtain ⟨hempty, hdot, hup⟩ := h.decodeLossy
  have hback : ∀ s : String, Text.decodeLossy name ≠ s →
      Text.encode (Text.decodeLossy name) ≠ Text.encode s := by
    intro s hne heq
    exact hne (by rw [← Text.decodeLossy_encode (Text.decodeLossy name), heq, Text.decodeLossy_encode])
  exact ⟨hback "" hempty, hback "." hdot, hback ".." hup⟩

theorem slash_not_mem_decodeLossy {name : Bytes} (h : Bytes.slash ∉ name) :
    '/' ∉ (Text.decodeLossy name).toList :=
  fun hin => h (Text.mem_of_mem_decodeLossy (by decide) hin)

/-- **What a way is good for.** Its parts are the names that the canonical path of the top lacks to
that of the file, as texts; they are plain, and the way is relative. Joined to the top it leads to the
file if and only if the names on it are UTF-8: so it does wherever the directory and the file are spelled
as texts, whatever other names there are in the tree. Whatever else leads to the file and to the top,
from wherever it is seen, gives the same way, and so do the canonical paths written out. -/
structure Way (t : FileTree) (directory file top : Bytes) (names : List Bytes) (way : String) :
    Prop where
  lacks : ∃ fs ts, t.canonical directory file = .ok fs ∧ t.canonical directory top = .ok ts ∧
    fs = ts ++ names ∧ ∀ elsewhere, t.relative? elsewhere (spelled fs) (spelled ts) = some way
  parts : pathParts way = names.map Text.decodeLossy
  plain : ∀ part ∈ pathParts way, part ≠ "" ∧ part ≠ "." ∧ part ≠ ".."
  relative : isAbsolutePath way = false
  leads : Text.IsUtf8 directory → Text.IsUtf8 file →
    t.canonical directory (top.join way) = t.canonical directory file
  leads_iff : t.canonical directory (top.join way) = t.canonical directory file ↔
    ∀ name ∈ names, Text.IsUtf8 name
  unique : ∀ elsewhere file' top', t.canonical elsewhere file' = t.canonical directory file →
    t.canonical elsewhere top' = t.canonical directory top →
      t.relative? elsewhere file' top' = some way

theorem way_of_relative {file top : Bytes} {way : String} (hd : 0 ∉ directory)
    (h : t.relative? directory file top = some way) : ∃ names, t.Way directory file top names way := by
  obtain ⟨fs, ts, names, hfile, htop, hfs, hsome, hway⟩ := relative_eq_some.1 h
  have hstanding : t.Standing (ts ++ names) := by rw [← hfs]; exact standing_canonical hfile
  have hin : ∀ name ∈ names, name ∈ fs := by
    intro name hname
    rw [hfs]
    exact List.mem_append_right ts hname
  have hplain : ∀ name ∈ names, Plain name :=
    fun name hname => hstanding.plain (List.mem_append_right ts hname)
  have hshown : ∀ part ∈ names.map Text.decodeLossy, part ≠ "" ∧ part ≠ "." ∧ part ≠ ".." := by
    intro part hpart
    obtain ⟨name, hname, rfl⟩ := List.mem_map.1 hpart
    exact (hplain name hname).decodeLossy
  have hslash : ∀ part ∈ names.map Text.decodeLossy, '/' ∉ part.toList := by
    intro part hpart
    obtain ⟨name, hname, rfl⟩ := List.mem_map.1 hpart
    exact slash_not_mem_decodeLossy (slash_not_mem_of_canonical hfile (hin name hname))
  have hparts : pathParts way = names.map Text.decodeLossy := by
    rw [hway, pathParts_intercalate (by simpa using hsome) hslash]
  have hrelative : isAbsolutePath way = false := by
    obtain ⟨first, rest, hnames⟩ := List.exists_cons_of_ne_nil
      (show names.map Text.decodeLossy ≠ [] by simpa using hsome)
    have hfirst : first ∈ names.map Text.decodeLossy := by rw [hnames]; exact List.mem_cons_self
    rw [hway, hnames]
    exact isAbsolutePath_intercalate (hshown first hfirst).1 (hslash first hfirst) rest
  -- joined to the top, the way is followed from there name by name, as each is shown
  have hjoin : t.canonical directory (top.join way) =
      t.walk ts (names.map fun name => Text.encode (Text.decodeLossy name)) := by
    rw [canonical_join htop (Text.zero_not_mem_encode (hasNul_relative hd h))
      (by rw [Bytes.isAbsolute_encode]; exact hrelative), Bytes.parts_encode, hparts, List.map_map]
    rfl
  have hleads : t.canonical directory (top.join way) = t.canonical directory file ↔
      ∀ name ∈ names, Text.IsUtf8 name := by
    rw [hjoin, hfile, hfs]
    constructor
    · intro hwalk name hname
      have hall : ∀ name ∈ names.map fun name => Text.encode (Text.decodeLossy name), Plain name := by
        intro shown hshown
        obtain ⟨name, hname, rfl⟩ := List.mem_map.1 hshown
        exact (hplain name hname).shown
      have hsame := List.append_cancel_left (eq_of_walk hall hwalk)
      exact Text.encode_decodeLossy.1
        (List.map_inj_left.1 (hsame.symm.trans (List.map_id names).symm) name hname)
    · intro hall
      rw [List.map_congr_left fun name hname => Text.encode_decodeLossy.2 (hall name hname),
        List.map_id']
      exact walk_standing hstanding
  have hsame : ∀ elsewhere file' top', t.canonical elsewhere file' = .ok fs →
      t.canonical elsewhere top' = .ok ts → t.relative? elsewhere file' top' = some way := by
    intro elsewhere file' top' hfile' htop'
    exact relative_eq_some.2 ⟨fs, ts, names, hfile', htop', hfs, hsome, hway⟩
  refine ⟨names, ⟨fs, ts, hfile, htop, hfs, fun elsewhere => ?_⟩, hparts, ?_, hrelative, ?_, hleads, ?_⟩
  · exact hsame elsewhere _ _ (canonical_spelled hd elsewhere hfile)
      (canonical_spelled hd elsewhere htop)
  · rw [hparts]
    exact hshown
  · intro hseen hspelled
    exact hleads.2 fun name hname => isUtf8_of_canonical hseen hspelled hfile (hin name hname)
  · intro elsewhere file' top' hfile' htop'
    exact hsame elsewhere file' top' (hfile'.trans hfile) (htop'.trans htop)

/-- Where a name is no UTF-8, the way to it is a text that leads elsewhere. -/
example :
    let t : FileTree := .directory [("a", .directory [(0xFF :: Text.encode ".toml", .file [])])]
    t.relative? "/a" (0xFF :: Text.encode ".toml") "/a" = some "\uFFFD.toml" ∧
      t.canonical "/a" (Bytes.join "/a" "\uFFFD.toml") = .error .notFound := by
  exact ⟨by decide +kernel, rfl⟩

end FileTree

end Backdate
