import Backdate.Plan.Encode
import Backdate.Proofs.Validity

/-!
# Events as tables

What a table has to say to be an event is told field by field (`Tells`), and a table is
read as the event that it tells (`event_ok`). Telling looks at the keys of the event's kind
only, and at no order among them (`Tells.congr`), and a written event is told by its table
(`tells_encode`); so an event survives being written down and read back, in whatever order
and with whatever other keys beside it (`event_survives`).

A table is vetted from its first entry to its last, which is where the order does matter:
to which of several faults is named. That what is told passes every check (`vet_ok`,
`TellsFields.checked`) is what makes the order irrelevant to the events that are read.
-/

namespace Backdate

open Toml (Value Entries)
open Plan (bind_eq_ok pure_eq_ok exists_unit)

/-! ## Tables -/

namespace Toml

variable {es es' : Entries} {key : String} {v : Value}

/-- No key stands twice in a table. -/
def IsTable (es : Entries) : Prop := (es.map (·.1)).Nodup

theorem mem_of_lookup {α : Type} {es : List (String × α)} {a : α} (h : es.lookup key = some a) :
    (key, a) ∈ es := by
  obtain ⟨before, after, rfl, -⟩ := List.lookup_eq_some_iff.1 h
  exact List.mem_append_right before List.mem_cons_self

/-- In a table, to find a value is to have it. -/
theorem IsTable.lookup_eq_some (h : IsTable es) : es.lookup key = some v ↔ (key, v) ∈ es := by
  refine ⟨mem_of_lookup, fun hmem => ?_⟩
  obtain ⟨before, after, rfl⟩ := List.append_of_mem hmem
  refine List.lookup_eq_some_iff.2 ⟨before, after, rfl, fun entry hentry => ?_⟩
  -- the key of an entry before it would stand twice
  have hkeys : (before.map (·.1) ++ key :: after.map (·.1)).Nodup := by
    simpa [IsTable] using h
  have hne : entry.1 ≠ key :=
    (List.nodup_append.1 hkeys).2.2 entry.1 (List.mem_map_of_mem hentry) key List.mem_cons_self
  simpa using Ne.symm hne

theorem IsTable.perm (h : IsTable es) (hp : es'.Perm es) : IsTable es' :=
  (hp.map _).nodup_iff.2 h

/-- The order of a table does not matter to what is found in it. -/
theorem IsTable.lookup_perm (h : IsTable es) (hp : es'.Perm es) (key : String) :
    es'.lookup key = es.lookup key := by
  refine Option.ext fun v => ?_
  rw [(h.perm hp).lookup_eq_some, h.lookup_eq_some, hp.mem_iff]

theorem lookup_eq_none (h : key ∉ es.map (·.1)) : es.lookup key = none := by
  refine List.lookup_eq_none_iff.2 fun entry hentry => ?_
  have hne : key ≠ entry.1 := fun heq => h (heq ▸ List.mem_map_of_mem hentry)
  simpa using hne

theorem IsTable.filter (h : IsTable es) (f : String × Value → Bool) : IsTable (es.filter f) :=
  h.sublist (List.filter_sublist.map _)

theorem lookup_filter_ne {other : String} (h : key ≠ other) (es : Entries) :
    (es.filter fun e => e.1 != other).lookup key = es.lookup key := by
  induction es with
  | nil => rfl
  | cons entry es ih =>
    obtain ⟨name, v⟩ := entry
    by_cases hname : name = other
    · have hkey : (key == name) = false := by rw [hname]; simpa using h
      rw [List.filter_cons_of_neg (by simpa using hname), ih, List.lookup_cons, hkey]
    · rw [List.filter_cons_of_pos (by simpa using hname), List.lookup_cons, List.lookup_cons, ih]

end Toml

namespace Schema

open Toml (IsTable)

/-! ## Fields -/

section Fields

variable {α : Type} {es es' : Entries} {key : String} {decode : Decoder α} {a : α} {o : Option α}

/-- A table has a value under a key, and it reads as the given one. -/
def Says (es : Entries) (key : String) (decode : Decoder α) (a : α) : Prop :=
  ∃ v, es.lookup key = some v ∧ decode v = .ok a

/-- A table leaves a key out, or says the given value under it. -/
def MaySay (es : Entries) (key : String) (decode : Decoder α) : Option α → Prop
  | none => es.lookup key = none
  | some a => Says es key decode a

theorem required_ok :
    (Fields.ofTable es).required key decode = .ok a ↔ Says es key decode a := by
  unfold Fields.required Fields.ofTable Says
  cases es.lookup key with
  | none => simp
  | some v => simp

theorem optional_ok :
    (Fields.ofTable es).optional key decode = .ok o ↔ MaySay es key decode o := by
  unfold Fields.optional Fields.ofTable MaySay Says
  cases es.lookup key with
  | none => cases o <;> simp
  | some v => cases o <;> cases hv : decode v <;> simp [Except.map, hv]

theorem says_congr (h : es.lookup key = es'.lookup key) :
    Says es key decode a ↔ Says es' key decode a := by
  unfold Says
  rw [h]

theorem maySay_congr (h : es.lookup key = es'.lookup key) :
    MaySay es key decode o ↔ MaySay es' key decode o := by
  cases o with
  | none => unfold MaySay; rw [h]
  | some a => exact says_congr h

/-- A value that is read passes its check. -/
theorem Says.checked (h : Says es key decode a) :
    ∀ v, es.lookup key = some v → check decode v = .ok () := by
  obtain ⟨v, hv, hdecode⟩ := h
  intro v' hv'
  obtain rfl : v = v' := Option.some.inj (hv.symm.trans hv')
  unfold check
  rw [hdecode]
  rfl

theorem MaySay.checked (h : MaySay es key decode o) :
    ∀ v, es.lookup key = some v → check decode v = .ok () := by
  cases o with
  | none =>
    intro v hv
    rw [show es.lookup key = none from h] at hv
    cases hv
  | some a => exact Says.checked h

/-- A check of one value after the other passes if each of them passes. -/
theorem forM_ok {ε β : Type} {f : β → Except ε Unit} {xs : List β} (h : ∀ x ∈ xs, f x = .ok ()) :
    xs.forM f = .ok () := by
  induction xs with
  | nil => rfl
  | cons x xs ih =>
    obtain ⟨hx, hxs⟩ := List.forall_mem_cons.1 h
    have hcons : (x :: xs).forM f = f x >>= fun _ => xs.forM f := rfl
    rw [hcons, hx]
    exact ih hxs

/-- **A table is vetted by what is found under the keys that are checked.** -/
theorem vet_ok (h : IsTable es) {checks : List (String × Decoder Unit)}
    (hchecks : ∀ c ∈ checks, ∀ v, es.lookup c.1 = some v → c.2 v = .ok ()) :
    (Fields.ofTable es).vet checks = .ok () := by
  unfold Fields.vet
  refine forM_ok fun entry hentry => ?_
  obtain ⟨name, v⟩ := entry
  have hfound : es.lookup name = some v := h.lookup_eq_some.2 hentry
  simp only
  cases hcheck : checks.lookup name with
  | none => rfl
  | some check => exact hchecks (name, check) (Toml.mem_of_lookup hcheck) v hfound

end Fields

/-! ## Events -/

variable {es es' : Entries} {e : EventSpec}

/-- The fields that only some kinds of event have. -/
def TellsAction (es : Entries) : ActionSpec → Prop
  | .change branch message paths stageAll =>
    Says es "branch" text branch ∧ Says es "message" text message ∧
      MaySay es "paths" (list text) paths ∧
      ∃ given, MaySay es "stage_all" boolean given ∧ stageAll = given.getD false
  | .deletion branch message paths =>
    Says es "branch" text branch ∧ Says es "message" text message ∧
      Says es "paths" (list text) paths
  | .merge target source => Says es "target" text target ∧ Says es "source" text source
  | .tag name branch message =>
    Says es "name" text name ∧ Says es "message" text message ∧
      ∃ given, MaySay es "branch" text given ∧ branch = given.getD tagBranch

/-- The fields of an event: a heading and a minute may be left out. -/
structure TellsFields (es : Entries) (e : EventSpec) : Prop where
  heading : MaySay es "section" text e.heading
  author : Says es "author" author e.author
  day : Says es "day" word32 e.time.day
  hour : Says es "hour" word8 e.time.hour
  minute : ∃ given, MaySay es "minute" word8 given ∧ e.time.minute = given.getD 0
  action : TellsAction es e.action

/-- **A table tells an event**: its kind, and the fields that this kind has. -/
structure Tells (es : Entries) (e : EventSpec) : Prop where
  kind : Says es "kind" kind e.action.kind
  fields : TellsFields es e

/-- The checks of the fields that a kind of event has. -/
def checksOf (k : Kind) : List (String × Decoder Unit) :=
  fieldChecks.filter fun c => (fieldNames k).contains c.1

/-- What is told passes the checks. -/
theorem TellsFields.checked (h : TellsFields es e) :
    ∀ c ∈ checksOf e.action.kind, ∀ v, es.lookup c.1 = some v → c.2 v = .ok () := by
  rcases e with ⟨heading, author, ⟨day, hour, minute⟩, action⟩
  obtain ⟨hheading, hauthor, hday, hhour, ⟨minute', hminute, -⟩, haction⟩ := h
  cases action with
  | change branch message paths stageAll =>
    obtain ⟨hbranch, hmessage, hpaths, given, hstageAll, -⟩ := haction
    have hchecks : checksOf .change = [("section", check text), ("branch", check text),
        ("author", check Schema.author), ("day", check word32), ("hour", check word8),
        ("minute", check word8), ("message", check text), ("paths", check (list text)),
        ("stage_all", check boolean)] := rfl
    simp only [ActionSpec.kind, hchecks, List.forall_mem_cons]
    exact ⟨hheading.checked, hbranch.checked, hauthor.checked, hday.checked, hhour.checked,
      hminute.checked, hmessage.checked, hpaths.checked, hstageAll.checked, by simp⟩
  | deletion branch message paths =>
    obtain ⟨hbranch, hmessage, hpaths⟩ := haction
    have hchecks : checksOf .deletion = [("section", check text), ("branch", check text),
        ("author", check Schema.author), ("day", check word32), ("hour", check word8),
        ("minute", check word8), ("message", check text), ("paths", check (list text))] := rfl
    simp only [ActionSpec.kind, hchecks, List.forall_mem_cons]
    exact ⟨hheading.checked, hbranch.checked, hauthor.checked, hday.checked, hhour.checked,
      hminute.checked, hmessage.checked, hpaths.checked, by simp⟩
  | merge target source =>
    obtain ⟨htarget, hsource⟩ := haction
    have hchecks : checksOf .merge = [("section", check text), ("target", check text),
        ("source", check text), ("author", check Schema.author), ("day", check word32),
        ("hour", check word8), ("minute", check word8)] := rfl
    simp only [ActionSpec.kind, hchecks, List.forall_mem_cons]
    exact ⟨hheading.checked, htarget.checked, hsource.checked, hauthor.checked, hday.checked,
      hhour.checked, hminute.checked, by simp⟩
  | tag name branch message =>
    obtain ⟨hname, hmessage, given, hbranch, -⟩ := haction
    have hchecks : checksOf .tag = [("section", check text), ("branch", check text),
        ("name", check text), ("author", check Schema.author), ("day", check word32),
        ("hour", check word8), ("minute", check word8), ("message", check text)] := rfl
    simp only [ActionSpec.kind, hchecks, List.forall_mem_cons]
    exact ⟨hheading.checked, hbranch.checked, hname.checked, hauthor.checked, hday.checked,
      hhour.checked, hminute.checked, hmessage.checked, by simp⟩

/-- What is read is told. -/
theorem tellsFields_of_read {k : Kind} (h : eventFields k (.ofTable es) = .ok e) :
    e.action.kind = k ∧ TellsFields es e := by
  cases k with
  | change =>
    simp only [eventFields, bind_eq_ok, exists_unit, pure_eq_ok, required_ok, optional_ok] at h
    obtain ⟨-, heading, hheading, branch, hbranch, author, hauthor, day, hday, hour, hhour,
      minute, hminute, message, hmessage, paths, hpaths, stageAll, hstageAll, rfl⟩ := h
    exact ⟨rfl, hheading, hauthor, hday, hhour, ⟨minute, hminute, rfl⟩,
      hbranch, hmessage, hpaths, stageAll, hstageAll, rfl⟩
  | deletion =>
    simp only [eventFields, bind_eq_ok, exists_unit, pure_eq_ok, required_ok, optional_ok] at h
    obtain ⟨-, heading, hheading, branch, hbranch, author, hauthor, day, hday, hour, hhour,
      minute, hminute, message, hmessage, paths, hpaths, rfl⟩ := h
    exact ⟨rfl, hheading, hauthor, hday, hhour, ⟨minute, hminute, rfl⟩,
      hbranch, hmessage, hpaths⟩
  | merge =>
    simp only [eventFields, bind_eq_ok, exists_unit, pure_eq_ok, required_ok, optional_ok] at h
    obtain ⟨-, heading, hheading, target, htarget, source, hsource, author, hauthor, day, hday,
      hour, hhour, minute, hminute, rfl⟩ := h
    exact ⟨rfl, hheading, hauthor, hday, hhour, ⟨minute, hminute, rfl⟩, htarget, hsource⟩
  | tag =>
    simp only [eventFields, bind_eq_ok, exists_unit, pure_eq_ok, required_ok, optional_ok] at h
    obtain ⟨-, heading, hheading, name, hname, branch, hbranch, author, hauthor, day, hday, hour,
      hhour, minute, hminute, message, hmessage, rfl⟩ := h
    exact ⟨rfl, hheading, hauthor, hday, hhour, ⟨minute, hminute, rfl⟩, hname, hmessage,
      branch, hbranch, rfl⟩

/-- What is told is read: it passes the checks, and each field is found. -/
theorem TellsFields.read (htold : TellsFields es e) (h : IsTable es) :
    eventFields e.action.kind (.ofTable es) = .ok e := by
  have hvet : (Fields.ofTable es).vet (checksOf e.action.kind) = .ok () := vet_ok h htold.checked
  unfold checksOf at hvet
  rcases e with ⟨heading, author, ⟨day, hour, minute⟩, action⟩
  obtain ⟨hheading, hauthor, hday, hhour, ⟨minute', hminute, hdefault⟩, haction⟩ := htold
  cases action with
  | change branch message paths stageAll =>
    obtain ⟨hbranch, hmessage, hpaths, given, hstageAll, hgiven⟩ := haction
    simp only [ActionSpec.kind, eventFields, bind_eq_ok, exists_unit, pure_eq_ok, required_ok,
      optional_ok]
    exact ⟨hvet, heading, hheading, branch, hbranch, author, hauthor, day, hday, hour, hhour,
      minute', hminute, message, hmessage, paths, hpaths, given, hstageAll, by
        rw [← hdefault, ← hgiven]⟩
  | deletion branch message paths =>
    obtain ⟨hbranch, hmessage, hpaths⟩ := haction
    simp only [ActionSpec.kind, eventFields, bind_eq_ok, exists_unit, pure_eq_ok, required_ok,
      optional_ok]
    exact ⟨hvet, heading, hheading, branch, hbranch, author, hauthor, day, hday, hour, hhour,
      minute', hminute, message, hmessage, paths, hpaths, by rw [← hdefault]⟩
  | merge target source =>
    obtain ⟨htarget, hsource⟩ := haction
    simp only [ActionSpec.kind, eventFields, bind_eq_ok, exists_unit, pure_eq_ok, required_ok,
      optional_ok]
    exact ⟨hvet, heading, hheading, target, htarget, source, hsource, author, hauthor, day, hday,
      hour, hhour, minute', hminute, by rw [← hdefault]⟩
  | tag name branch message =>
    obtain ⟨hname, hmessage, given, hbranch, hgiven⟩ := haction
    simp only [ActionSpec.kind, eventFields, bind_eq_ok, exists_unit, pure_eq_ok, required_ok,
      optional_ok]
    exact ⟨hvet, heading, hheading, name, hname, given, hbranch, author, hauthor, day, hday, hour,
      hhour, minute', hminute, message, hmessage, by rw [← hdefault, ← hgiven]⟩

/-- What a table says under the keys of a kind is all that it tells of the action. -/
theorem tellsAction_congr {action : ActionSpec}
    (h : ∀ key ∈ fieldNames action.kind, es.lookup key = es'.lookup key) :
    TellsAction es action ↔ TellsAction es' action := by
  cases action with
  | change branch message paths stageAll =>
    simp only [ActionSpec.kind, fieldNames, List.forall_mem_cons] at h
    obtain ⟨-, hbranch, -, -, -, -, hmessage, hpaths, hstageAll, -⟩ := h
    simp only [TellsAction, says_congr hbranch, says_congr hmessage, maySay_congr hpaths,
      maySay_congr hstageAll]
  | deletion branch message paths =>
    simp only [ActionSpec.kind, fieldNames, List.forall_mem_cons] at h
    obtain ⟨-, hbranch, -, -, -, -, hmessage, hpaths, -⟩ := h
    simp only [TellsAction, says_congr hbranch, says_congr hmessage, says_congr hpaths]
  | merge target source =>
    simp only [ActionSpec.kind, fieldNames, List.forall_mem_cons] at h
    obtain ⟨-, htarget, hsource, -⟩ := h
    simp only [TellsAction, says_congr htarget, says_congr hsource]
  | tag name branch message =>
    simp only [ActionSpec.kind, fieldNames, List.forall_mem_cons] at h
    obtain ⟨-, hname, hbranch, -, -, -, -, hmessage, -⟩ := h
    simp only [TellsAction, says_congr hname, says_congr hmessage, maySay_congr hbranch]

/-- The fields that every event has. -/
theorem common_fieldNames (k : Kind) :
    ["section", "author", "day", "hour", "minute"] ⊆ fieldNames k := by
  cases k <;> decide

/-- The same for all the fields of an event. -/
theorem TellsFields.congr (h : TellsFields es e)
    (hkeys : ∀ key ∈ fieldNames e.action.kind, es.lookup key = es'.lookup key) :
    TellsFields es' e := by
  have hcommon : ∀ key ∈ ["section", "author", "day", "hour", "minute"],
      es.lookup key = es'.lookup key :=
    fun key hkey => hkeys key (common_fieldNames _ hkey)
  simp only [List.forall_mem_cons] at hcommon
  obtain ⟨hheading, hauthor, hday, hhour, hminute, -⟩ := hcommon
  obtain ⟨given, hgiven, hdefault⟩ := h.minute
  exact {
    heading := (maySay_congr hheading).1 h.heading
    author := (says_congr hauthor).1 h.author
    day := (says_congr hday).1 h.day
    hour := (says_congr hhour).1 h.hour
    minute := ⟨given, (maySay_congr hminute).1 hgiven, hdefault⟩
    action := (tellsAction_congr hkeys).1 h.action }

theorem kind_notMem_fieldNames (k : Kind) : "kind" ∉ fieldNames k := by
  cases k <;> decide

/-- **A table is read as the event that it tells.** -/
theorem event_ok (h : IsTable es) : event (.table es) = .ok e ↔ Tells es e := by
  have hlookup : ∀ key ∈ fieldNames e.action.kind,
      (es.filter fun entry => entry.1 != "kind").lookup key = es.lookup key := by
    intro key hkey
    have hne : key ≠ "kind" := ne_of_mem_of_not_mem hkey (kind_notMem_fieldNames _)
    exact Toml.lookup_filter_ne hne es
  have hevent : event (.table es) = eventTable es := rfl
  rw [hevent]
  unfold eventTable
  simp only [bind_eq_ok, required_ok]
  constructor
  · rintro ⟨k, hkind, hread⟩
    obtain ⟨rfl, hfields⟩ := tellsFields_of_read hread
    exact ⟨hkind, hfields.congr hlookup⟩
  · rintro ⟨hkind, hfields⟩
    have hrest := hfields.congr fun key hkey => (hlookup key hkey).symm
    exact ⟨_, hkind, hrest.read (h.filter _)⟩

/-- Tables with the same values under the kind and its fields tell the same event. -/
theorem Tells.congr (h : Tells es e) (hkind : es.lookup "kind" = es'.lookup "kind")
    (hkeys : ∀ key ∈ fieldNames e.action.kind, es.lookup key = es'.lookup key) : Tells es' e :=
  ⟨(says_congr hkind).1 h.kind, h.fields.congr hkeys⟩

/-! ## Written events -/

theorem word32_integer (n : UInt32) : word32 (.integer n.toNat) = .ok n := by
  have hlt : n.toNat < 4294967296 := n.toNat_lt
  unfold word32
  simp only []
  rw [if_pos (by omega)]
  simp

theorem word8_integer (n : UInt8) : word8 (.integer n.toNat) = .ok n := by
  have hlt : n.toNat < 256 := n.toNat_lt
  unfold word8
  simp only []
  rw [if_pos (by omega)]
  simp

theorem author_text (a : Author) : author (.text a.text) = .ok a := by
  cases a <;> rfl

theorem kind_text (k : Kind) : kind (.text k.text) = .ok k := by
  cases k <;> rfl

theorem list_texts (ss : List String) : list text (EventSpec.encodeTexts ss) = .ok ss := by
  unfold list EventSpec.encodeTexts
  simp only []
  induction ss with
  | nil => rfl
  | cons s ss ih => simp [text, ih, bind, Except.bind, pure, Except.pure]

/-- The keys of a written event are its kind and fields of this kind, in order. -/
theorem keys_encode (e : EventSpec) :
    (e.encode.map (·.1)).Sublist ("kind" :: fieldNames e.action.kind) := by
  rcases e with ⟨heading, author, time, action⟩
  cases action with
  | change branch message paths stageAll =>
    cases heading <;> cases paths <;> exact of_decide_eq_true rfl
  | deletion branch message paths => cases heading <;> exact of_decide_eq_true rfl
  | merge target source => cases heading <;> exact of_decide_eq_true rfl
  | tag name branch message => cases heading <;> exact of_decide_eq_true rfl

theorem isTable_encode (e : EventSpec) : IsTable e.encode := by
  have hnodup : ("kind" :: fieldNames e.action.kind).Nodup := by
    cases e.action.kind <;> decide
  exact hnodup.sublist (keys_encode e)

/-- A written value is said. -/
theorem says_of_mem {α : Type} {key : String} {decode : Decoder α} {a : α} {v : Value}
    (h : IsTable es) (hdecode : decode v = .ok a) (hmem : (key, v) ∈ es) : Says es key decode a :=
  ⟨v, h.lookup_eq_some.2 hmem, hdecode⟩

@[simp]
theorem mem_encodeOption {α : Type} {key : String} {encode : α → Value} {o : Option α}
    {entry : String × Value} :
    entry ∈ EventSpec.encodeOption key encode o ↔ ∃ a, o = some a ∧ entry = (key, encode a) := by
  cases o <;> simp [EventSpec.encodeOption]

/-- An optional value is said if it is written when there is one, and only then. -/
theorem maySay_of_mem {α : Type} {key : String} {decode : Decoder α} {encode : α → Value}
    {o : Option α} (h : IsTable es) (hdecode : ∀ a, decode (encode a) = .ok a)
    (hsome : ∀ a, o = some a → (key, encode a) ∈ es)
    (hnone : o = none → key ∉ es.map (·.1)) : MaySay es key decode o := by
  cases o with
  | none => exact Toml.lookup_eq_none (hnone rfl)
  | some a => exact says_of_mem h (hdecode a) (hsome a rfl)

theorem encodeWhen_subset (e : EventSpec) : e.encodeWhen ⊆ e.encode := by
  intro entry hentry
  unfold EventSpec.encode
  cases e.action <;> simp [hentry]

theorem maySay_heading (e : EventSpec) : MaySay e.encode "section" text e.heading := by
  have htext : ∀ heading, text (.text heading) = .ok heading := fun _ => rfl
  refine maySay_of_mem (isTable_encode e) htext (fun heading hsome => ?_) (fun hnone => ?_)
  · simp [EventSpec.encode, hsome]
  · unfold EventSpec.encode
    cases e.action <;> simp [hnone, EventSpec.encodeWhen]

/-- The fields of the action are written under their own keys. -/
theorem tellsAction_encode (e : EventSpec) : TellsAction e.encode e.action := by
  have htable : IsTable e.encode := isTable_encode e
  rcases e with ⟨heading, author, time, action⟩
  cases action with
  | change branch message paths stageAll =>
    refine ⟨says_of_mem (v := .text branch) htable rfl ?_,
      says_of_mem (v := .text message) htable rfl ?_,
      maySay_of_mem htable list_texts ?_ ?_,
      some stageAll, says_of_mem (v := .boolean stageAll) htable rfl ?_, rfl⟩
    all_goals simp +contextual [EventSpec.encode, EventSpec.encodeWhen]
  | deletion branch message paths =>
    refine ⟨says_of_mem (v := .text branch) htable rfl ?_,
      says_of_mem (v := .text message) htable rfl ?_,
      says_of_mem htable (list_texts paths) ?_⟩
    all_goals simp [EventSpec.encode, EventSpec.encodeWhen]
  | merge target source =>
    refine ⟨says_of_mem (v := .text target) htable rfl ?_,
      says_of_mem (v := .text source) htable rfl ?_⟩
    all_goals simp [EventSpec.encode, EventSpec.encodeWhen]
  | tag name branch message =>
    refine ⟨says_of_mem (v := .text name) htable rfl ?_,
      says_of_mem (v := .text message) htable rfl ?_,
      some branch, says_of_mem (v := .text branch) htable rfl ?_, rfl⟩
    all_goals simp [EventSpec.encode, EventSpec.encodeWhen]

/-- **A written event is told by its table.** -/
theorem tells_encode (e : EventSpec) : Tells e.encode e := by
  have htable : IsTable e.encode := isTable_encode e
  have hwhen : ∀ entry ∈ e.encodeWhen, entry ∈ e.encode :=
    fun entry hentry => encodeWhen_subset e hentry
  simp only [EventSpec.encodeWhen, List.forall_mem_cons] at hwhen
  obtain ⟨hauthor, hday, hhour, hminute, -⟩ := hwhen
  exact {
    kind := says_of_mem htable (kind_text _) (by simp [EventSpec.encode])
    fields := {
      heading := maySay_heading e
      author := says_of_mem htable (author_text _) hauthor
      day := says_of_mem htable (word32_integer _) hday
      hour := says_of_mem htable (word8_integer _) hhour
      minute := ⟨some e.time.minute, says_of_mem htable (word8_integer _) hminute, rfl⟩
      action := tellsAction_encode e } }

theorem event_encode (e : EventSpec) : event (.table e.encode) = .ok e :=
  (event_ok (isTable_encode e)).2 (tells_encode e)

/-! ## Order and other keys -/

/-- Other keys, in whatever order, change nothing about what is found under a key. -/
theorem lookup_of_perm_append {extra : Entries} {key : String} (h : IsTable es')
    (hperm : es'.Perm (es ++ extra)) (hkey : ∀ entry ∈ extra, entry.1 ≠ key) :
    es'.lookup key = es.lookup key := by
  have hnone : extra.lookup key = none := by
    refine Toml.lookup_eq_none fun hmem => ?_
    obtain ⟨entry, hentry, rfl⟩ := List.mem_map.1 hmem
    exact hkey entry hentry rfl
  rw [(h.perm hperm.symm).lookup_perm hperm, List.lookup_append, hnone, Option.or_none]

/-- A table read as an event and written down again. -/
def rewritten (es : Entries) : Except Misfit Entries := (event (.table es)).map EventSpec.encode

theorem rewritten_encode (e : EventSpec) : rewritten e.encode = .ok e.encode := by
  unfold rewritten
  rw [event_encode]
  rfl

/-- **Events survive being written.** What is written of an event is read as this event. A
table that is read as an event is rewritten to one that is read as the same event and is
not changed by being rewritten once more. Neither the order of a table nor keys that the
kind of the event does not have make a difference to the event that is read. -/
theorem event_survives :
    (∀ e : EventSpec, IsTable e.encode ∧ event (.table e.encode) = .ok e) ∧
    (∀ (es : Entries) (e : EventSpec), event (.table es) = .ok e →
      ∃ es', rewritten es = .ok es' ∧ event (.table es') = .ok e ∧ rewritten es' = .ok es') ∧
    (∀ (es extra es' : Entries) (e : EventSpec), IsTable es' → es'.Perm (es ++ extra) →
      (∀ entry ∈ extra, entry.1 ∉ "kind" :: fieldNames e.action.kind) →
      (event (.table es') = .ok e ↔ event (.table es) = .ok e)) := by
  refine ⟨fun e => ⟨isTable_encode e, event_encode e⟩, fun es e hread => ?_,
    fun es extra es' e htable hperm hextra => ?_⟩
  · refine ⟨e.encode, ?_, event_encode e, rewritten_encode e⟩
    unfold rewritten
    rw [hread]
    rfl
  · have hfound : ∀ key ∈ "kind" :: fieldNames e.action.kind, es'.lookup key = es.lookup key := by
      intro key hkey
      exact lookup_of_perm_append htable hperm fun entry hentry heq =>
        hextra entry hentry (heq ▸ hkey)
    obtain ⟨hkind, hkeys⟩ := List.forall_mem_cons.1 hfound
    have hes : IsTable es := by
      refine (htable.perm hperm.symm).sublist (List.Sublist.map _ ?_)
      exact List.sublist_append_left es extra
    rw [event_ok htable, event_ok hes]
    exact ⟨fun h => h.congr hkind hkeys,
      fun h => h.congr hkind.symm fun key hkey => (hkeys key hkey).symm⟩

/-- A change of no paths, written from its last key to its kind and with a key of its own. -/
theorem reversed_change_read :
    event (.table [("colour", .text "red"), ("stage_all", .boolean false), ("paths", .array []),
      ("message", .text "m"), ("minute", .integer 255), ("hour", .integer 9),
      ("day", .integer 4294967295), ("author", .text "second"), ("branch", .text "main"),
      ("kind", .text "change")]) =
        .ok ⟨none, .second, ⟨4294967295, 9, 255⟩, .change "main" "m" (some []) false⟩ := by
  let e : EventSpec := ⟨none, .second, ⟨4294967295, 9, 255⟩, .change "main" "m" (some []) false⟩
  have hread : event (.table e.encode) = .ok e := (event_survives.1 e).2
  refine (event_survives.2.2 e.encode [("colour", .text "red")] _ e ?_
    (List.reverse_perm (e.encode ++ [("colour", .text "red")])) ?_).2 hread
  · unfold IsTable
    decide
  · decide

end Schema

end Backdate
