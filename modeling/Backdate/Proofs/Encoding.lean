import Backdate.Text.Utf8

/-!
# Encoding and decoding

A text is decoded of its own bytes, and of no others without a complaint
(`decode?_eq_some`). Bytes that are those of no text are decoded to one with
U+FFFD in it (`eq_encode_of_decodeLossy`), and no other ASCII than theirs
(`mem_of_mem_decodeLossy`).

* `Lead`: the first bytes of characters, each with what it owes; reading goes by
  these alone (`readChar_eq_some`);
* `eq_of_readChar`, `readChar_encode`: what is read is written, and what is
  written is read, whatever follows;
* `readChars_eq_map_some`: both for a whole text, by induction on its characters.
-/

namespace Backdate.Text

/-! ## Bytes of a character -/

/-- **First bytes**: what the first byte of a character contributes to its code, and the ranges of
the bytes after it. The first of these is narrower where a shorter character would do, where the code
is kept free, and where it is too large. -/
inductive Lead : Nat → Nat → List (Nat × Nat) → Prop where
  | one {b : Nat} : b ≤ 0x7F → Lead b b []
  | two {n : Nat} : 2 ≤ n → n < 0x20 → Lead (0xC0 + n) n [(0x80, 0xBF)]
  | three {n : Nat} : n < 0x10 → Lead (0xE0 + n) n
      [(if n = 0 then 0xA0 else 0x80, if n = 0xD then 0x9F else 0xBF), (0x80, 0xBF)]
  | four {n : Nat} : n < 5 → Lead (0xF0 + n) n
      [(if n = 0 then 0x90 else 0x80, if n = 4 then 0x8F else 0xBF), (0x80, 0xBF), (0x80, 0xBF)]

theorem owed_of_lead {b n : Nat} {rs : List (Nat × Nat)} (h : Lead b n rs) :
    owed b = some (n, rs) := by
  cases h with
  | one hb => exact if_pos hb
  | two hlo hhi =>
    unfold owed
    rw [if_neg (by omega), if_pos (by omega), Nat.add_mod]
    simp [Nat.mod_eq_of_lt hhi]
  | three hn =>
    have hall : ∀ n < 0x10, owed (0xE0 + n) = some (n,
        [(if n = 0 then 0xA0 else 0x80, if n = 0xD then 0x9F else 0xBF), (0x80, 0xBF)]) := by decide
    exact hall n hn
  | four hn =>
    have hall : ∀ n < 5, owed (0xF0 + n) = some (n,
        [(if n = 0 then 0x90 else 0x80, if n = 4 then 0x8F else 0xBF), (0x80, 0xBF),
          (0x80, 0xBF)]) := by decide
    exact hall n hn

/-- No other byte comes first. -/
theorem lead_of_owed {b n : Nat} {rs : List (Nat × Nat)} (h : owed b = some (n, rs)) :
    Lead b n rs := by
  have hlead : ∃ n' rs', Lead b n' rs' := by
    by_cases hone : b ≤ 0x7F
    · exact ⟨_, _, .one hone⟩
    by_cases htwo : 0xC2 ≤ b ∧ b ≤ 0xDF
    · obtain ⟨k, rfl⟩ := Nat.exists_eq_add_of_le htwo.1
      have hk := Lead.two (n := 2 + k) (by omega) (by omega)
      rw [← Nat.add_assoc] at hk
      exact ⟨_, _, hk⟩
    by_cases hthree : 0xE0 ≤ b ∧ b ≤ 0xEF
    · obtain ⟨k, rfl⟩ := Nat.exists_eq_add_of_le hthree.1
      exact ⟨_, _, .three (by omega)⟩
    by_cases hfour : 0xF0 ≤ b ∧ b ≤ 0xF4
    · obtain ⟨k, rfl⟩ := Nat.exists_eq_add_of_le hfour.1
      exact ⟨_, _, .four (by omega)⟩
    have hnone : owed b = none := by
      unfold owed
      iterate 8 rw [if_neg (by omega)]
    rw [hnone] at h
    cases h
  obtain ⟨n', rs', hlead⟩ := hlead
  obtain ⟨rfl, rfl⟩ := Prod.mk.inj (Option.some.inj (h.symm.trans (owed_of_lead hlead)))
  exact hlead

theorem readTail_nil_eq_some {n code : Nat} {bs rest : List UInt8} :
    readTail n [] bs = (some code, rest) ↔ n = code ∧ bs = rest := by
  simp [readTail]

theorem readTail_cons_eq_some {n lo hi code : Nat} {rs : List (Nat × Nat)} {bs rest : List UInt8} :
    readTail n ((lo, hi) :: rs) bs = (some code, rest) ↔ ∃ t ts, bs = t :: ts ∧
      (lo ≤ t.toNat ∧ t.toNat ≤ hi) ∧
        readTail (n * 0x40 + t.toNat % 0x40) rs ts = (some code, rest) := by
  cases bs with
  | nil => simp [readTail]
  | cons b bs =>
    rw [readTail]
    constructor
    · intro h
      split at h
      · next hin => exact ⟨b, bs, rfl, hin, h⟩
      · cases h
    · rintro ⟨t, ts, heq, hin, h⟩
      obtain ⟨rfl, rfl⟩ := List.cons.inj heq
      rw [if_pos hin]
      exact h

/-- **A character is read** where its first byte is followed by the bytes owed. -/
theorem readChar_eq_some {b : UInt8} {bs rest : List UInt8} {c : Char} :
    readChar b bs = (some c, rest) ↔ ∃ n rs code, Lead b.toNat n rs ∧
      readTail n rs bs = (some code, rest) ∧ Char.ofNat code = c := by
  unfold readChar
  constructor
  · intro h
    split at h
    · cases h
    · next n rs howed =>
      obtain ⟨hcode, hrest⟩ := Prod.mk.inj h
      obtain ⟨code, hsome, hchar⟩ := Option.map_eq_some_iff.1 hcode
      exact ⟨n, rs, code, lead_of_owed howed, Prod.ext hsome hrest, hchar⟩
  · rintro ⟨n, rs, code, hlead, htail, rfl⟩
    rw [owed_of_lead hlead]
    simp only [htail, Option.map_some]

/-- The second byte of a character is a tail like the others, but for its narrower range after two
of the first bytes. -/
theorem narrow {n k l lo hi t : Nat} (hlo : 0x80 ≤ lo) (hhi : hi ≤ 0xBF)
    (h : (if n = k then lo else 0x80) ≤ t ∧ t ≤ (if n = l then hi else 0xBF)) :
    0x80 ≤ t ∧ t ≤ 0xBF ∧ (n = k → lo ≤ t) ∧ (n = l → t ≤ hi) := by
  obtain ⟨hleft, hright⟩ := h
  split at hleft <;> split at hright <;> omega

theorem val_ofNat (code : Nat) (h : code.isValidChar) : (Char.ofNat code).val.toNat = code := by
  rw [Char.ofNat, dif_pos h]
  rfl

theorem ofNat_eq {n : Nat} {b : UInt8} (h : n = b.toNat) : UInt8.ofNat n = b := by
  rw [h, UInt8.ofNat_toNat]

/-- **What is read of some bytes is written in them.** -/
theorem eq_of_readChar {b : UInt8} {bs rest : List UInt8} {c : Char}
    (h : readChar b bs = (some c, rest)) : b :: bs = String.utf8EncodeChar c ++ rest := by
  obtain ⟨n, rs, code, hlead, htail, rfl⟩ := readChar_eq_some.1 h
  generalize hb : b.toNat = lead at hlead
  unfold String.utf8EncodeChar
  cases hlead with
  | one hone =>
    obtain ⟨rfl, rfl⟩ := readTail_nil_eq_some.1 htail
    simp only [val_ofNat n (.inl (by omega))]
    rw [if_pos hone, ofNat_eq hb.symm, List.singleton_append]
  | two hlo hhi =>
    simp only [readTail_cons_eq_some, readTail_nil_eq_some] at htail
    obtain ⟨t, ts, rfl, ht, rfl, rfl⟩ := htail
    simp only [val_ofNat (n * 0x40 + t.toNat % 0x40) (.inl (by omega))]
    rw [if_neg (by omega), if_pos (by omega), ofNat_eq (b := b) (by omega),
      ofNat_eq (b := t) (by omega)]
    rfl
  | three hn =>
    simp only [readTail_cons_eq_some, readTail_nil_eq_some] at htail
    obtain ⟨t, ts, rfl, ht, u, us, rfl, hu, rfl, rfl⟩ := htail
    obtain ⟨hlo, hhi, hlong, hfree⟩ := narrow (by decide) (by decide) ht
    clear ht
    simp only [val_ofNat ((n * 0x40 + t.toNat % 0x40) * 0x40 + u.toNat % 0x40)
      (by unfold Nat.isValidChar; omega)]
    rw [if_neg (by omega), if_neg (by omega), if_pos (by omega), ofNat_eq (b := b) (by omega),
      ofNat_eq (b := t) (by omega), ofNat_eq (b := u) (by omega)]
    rfl
  | four hn =>
    simp only [readTail_cons_eq_some, readTail_nil_eq_some] at htail
    obtain ⟨t, ts, rfl, ht, u, us, rfl, hu, v, vs, rfl, hv, rfl, rfl⟩ := htail
    obtain ⟨hlo, hhi, hlong, hlarge⟩ := narrow (by decide) (by decide) ht
    clear ht
    simp only [val_ofNat
      (((n * 0x40 + t.toNat % 0x40) * 0x40 + u.toNat % 0x40) * 0x40 + v.toNat % 0x40)
      (by unfold Nat.isValidChar; omega)]
    rw [if_neg (by omega), if_neg (by omega), if_neg (by omega), ofNat_eq (b := b) (by omega),
      ofNat_eq (b := t) (by omega), ofNat_eq (b := u) (by omega), ofNat_eq (b := v) (by omega)]
    rfl

/-- **A character is read back**, whatever follows it. -/
theorem readChar_encode (c : Char) (bs : List UInt8) : ∃ b tail,
    String.utf8EncodeChar c = b :: tail ∧ readChar b (tail ++ bs) = (some c, bs) := by
  have hvalid : c.val.toNat.isValidChar := c.valid
  have hchar : Char.ofNat c.val.toNat = c := Char.ofNat_toNat c
  have hbyte : ∀ n < 0x100, (UInt8.ofNat n).toNat = n := by
    intro n hn
    rw [UInt8.toNat_ofNat']
    exact Nat.mod_eq_of_lt hn
  unfold Nat.isValidChar at hvalid
  unfold String.utf8EncodeChar
  simp only
  generalize c.val.toNat = v at hvalid hchar
  split
  · next hone =>
    have hlead := Lead.one hone
    rw [← hbyte v (by omega)] at hlead
    refine ⟨_, _, rfl, readChar_eq_some.2 ⟨_, _, v, hlead, ?_, hchar⟩⟩
    rw [hbyte v (by omega)]
    exact readTail_nil_eq_some.2 ⟨rfl, rfl⟩
  split
  · next hone htwo =>
    have hlead := Lead.two (n := v / 0x40) (by omega) (by omega)
    have hb : (UInt8.ofNat (v / 0x40 % 0x20 + 0xC0)).toNat = 0xC0 + v / 0x40 := by
      rw [hbyte _ (by omega)]; omega
    rw [← hb] at hlead
    refine ⟨_, _, rfl, readChar_eq_some.2 ⟨_, _, v, hlead, ?_, hchar⟩⟩
    refine readTail_cons_eq_some.2 ⟨_, _, rfl, ?_, readTail_nil_eq_some.2 ⟨?_, rfl⟩⟩ <;>
      rw [hbyte _ (by omega)] <;> omega
  split
  · next hone htwo hthree =>
    have hlead := Lead.three (n := v / 0x1000) (by omega)
    have hb : (UInt8.ofNat (v / 0x1000 % 0x10 + 0xE0)).toNat = 0xE0 + v / 0x1000 := by
      rw [hbyte _ (by omega)]; omega
    rw [← hb] at hlead
    refine ⟨_, _, rfl, readChar_eq_some.2 ⟨_, _, v, hlead, ?_, hchar⟩⟩
    refine readTail_cons_eq_some.2 ⟨_, _, rfl, ?_,
      readTail_cons_eq_some.2 ⟨_, _, rfl, ?_, readTail_nil_eq_some.2 ⟨?_, rfl⟩⟩⟩
    · rw [hbyte _ (by omega)]
      split <;> split <;> omega
    · rw [hbyte _ (by omega)]
      omega
    · rw [hbyte _ (by omega), hbyte _ (by omega)]
      omega
  · next hone htwo hthree =>
    have hlead := Lead.four (n := v / 0x40000) (by omega)
    have hb : (UInt8.ofNat (v / 0x40000 % 0x08 + 0xF0)).toNat = 0xF0 + v / 0x40000 := by
      rw [hbyte _ (by omega)]; omega
    rw [← hb] at hlead
    refine ⟨_, _, rfl, readChar_eq_some.2 ⟨_, _, v, hlead, ?_, hchar⟩⟩
    refine readTail_cons_eq_some.2 ⟨_, _, rfl, ?_, readTail_cons_eq_some.2 ⟨_, _, rfl, ?_,
      readTail_cons_eq_some.2 ⟨_, _, rfl, ?_, readTail_nil_eq_some.2 ⟨?_, rfl⟩⟩⟩⟩
    · rw [hbyte _ (by omega)]
      split <;> split <;> omega
    · rw [hbyte _ (by omega)]
      omega
    · rw [hbyte _ (by omega)]
      omega
    · rw [hbyte _ (by omega), hbyte _ (by omega), hbyte _ (by omega)]
      omega

/-! ## Texts -/

variable {bs : List UInt8} {cs : List Char} {c : Char} {s : String}

theorem readChars_encode (cs : List Char) :
    readChars (cs.flatMap String.utf8EncodeChar) = cs.map some := by
  induction cs with
  | nil => rw [List.flatMap_nil, readChars]; rfl
  | cons c cs ih =>
    obtain ⟨b, tail, hbytes, hread⟩ := readChar_encode c (cs.flatMap String.utf8EncodeChar)
    rw [List.flatMap_cons, hbytes, List.cons_append, readChars, hread, ih, List.map_cons]

/-- **Bytes without an unreadable place** are those of the characters read. -/
theorem readChars_eq_map_some :
    readChars bs = cs.map some ↔ bs = cs.flatMap String.utf8EncodeChar := by
  refine ⟨fun h => ?_, fun h => h ▸ readChars_encode cs⟩
  induction cs generalizing bs with
  | nil =>
    cases bs with
    | nil => rfl
    | cons b bs => rw [readChars] at h; cases h
  | cons c cs ih =>
    cases bs with
    | nil => rw [readChars] at h; cases h
    | cons b bs =>
      rw [readChars, List.map_cons] at h
      obtain ⟨hchar, hrest⟩ := List.cons.inj h
      rw [List.flatMap_cons, ← ih hrest]
      exact eq_of_readChar (Prod.ext hchar rfl)

theorem mapM_id_eq_some {l : List (Option Char)} : l.mapM id = some cs ↔ l = cs.map some := by
  induction l generalizing cs with
  | nil => cases cs <;> simp
  | cons o l ih =>
    cases o with
    | none => cases cs <;> simp [List.mapM_cons]
    | some d => cases hl : l.mapM id <;> cases cs <;> simp [List.mapM_cons, hl, ← ih]

/-- **What is decoded of some bytes is encoded in them**, and the other way round. -/
theorem decode?_eq_some : decode? bs = some s ↔ bs = encode s := by
  unfold decode? encode
  rw [Option.map_eq_some_iff]
  constructor
  · rintro ⟨cs, hcs, rfl⟩
    rw [String.toList_ofList]
    exact readChars_eq_map_some.1 (mapM_id_eq_some.1 hcs)
  · intro h
    exact ⟨s.toList, mapM_id_eq_some.2 (readChars_eq_map_some.2 h), String.ofList_toList⟩

theorem decode?_encode (s : String) : decode? (encode s) = some s := decode?_eq_some.2 rfl

theorem decodeLossy_encode (s : String) : decodeLossy (encode s) = s := by
  unfold decodeLossy encode
  rw [readChars_encode, List.map_map]
  exact (congrArg String.ofList (List.map_id _)).trans String.ofList_toList

/-- Bytes that are those of a text. -/
def IsUtf8 (bs : List UInt8) : Prop := ∃ s, bs = encode s

instance (bs : List UInt8) : Decidable (IsUtf8 bs) :=
  decidable_of_iff ((decode? bs).isSome = true) (by
    rw [Option.isSome_iff_exists]
    exact exists_congr fun _ => decode?_eq_some)

theorem encode_decodeLossy : encode (decodeLossy bs) = bs ↔ IsUtf8 bs := by
  refine ⟨fun h => ⟨_, h.symm⟩, ?_⟩
  rintro ⟨s, rfl⟩
  rw [decodeLossy_encode]

/-- **A text without the replacement character** is decoded of its own bytes only. -/
theorem eq_encode_of_decodeLossy (h : decodeLossy bs = s) (hs : Char.ofNat 0xFFFD ∉ s.toList) :
    bs = encode s := by
  have hchars : (readChars bs).map (·.getD (Char.ofNat 0xFFFD)) = s.toList := by
    rw [← h, decodeLossy, String.toList_ofList]
  refine readChars_eq_map_some.1 ?_
  rw [← hchars, List.map_map]
  refine (List.map_id _).symm.trans (List.map_congr_left fun o ho => ?_)
  cases o with
  | some c => rfl
  | none =>
    have hin : Char.ofNat 0xFFFD ∈ s.toList := by
      rw [← hchars]
      exact List.mem_map.2 ⟨none, ho, rfl⟩
    exact absurd hin hs

/-! ## ASCII -/

theorem utf8EncodeChar_ascii (hc : c.toNat < 0x80) :
    String.utf8EncodeChar c = [UInt8.ofNat c.toNat] :=
  if_pos (Nat.le_of_lt_succ hc)

/-- The bytes of other characters are no ASCII. -/
theorem eq_of_mem_utf8EncodeChar {b : UInt8} (hb : b.toNat < 0x80)
    (h : b ∈ String.utf8EncodeChar c) : c.toNat = b.toNat := by
  have hlarge : ∀ n, 0x80 ≤ n → n < 0x100 → b ≠ UInt8.ofNat n := by
    rintro n hlo hhi rfl
    rw [UInt8.toNat_ofNat', Nat.mod_eq_of_lt hhi] at hb
    omega
  unfold String.utf8EncodeChar at h
  simp only at h
  split at h
  · next hone =>
    rw [List.mem_singleton.1 h, UInt8.toNat_ofNat', Nat.mod_eq_of_lt (by omega)]
    rfl
  split at h
  · simp only [List.mem_cons, List.not_mem_nil, or_false] at h
    rcases h with h | h <;> exact absurd h (hlarge _ (by omega) (by omega))
  split at h
  · simp only [List.mem_cons, List.not_mem_nil, or_false] at h
    rcases h with h | h | h <;> exact absurd h (hlarge _ (by omega) (by omega))
  · simp only [List.mem_cons, List.not_mem_nil, or_false] at h
    rcases h with h | h | h | h <;> exact absurd h (hlarge _ (by omega) (by omega))

/-- A character that is read comes from its bytes. -/
theorem infix_of_mem_readChars (h : some c ∈ readChars bs) : String.utf8EncodeChar c <:+: bs := by
  induction bs using readChars.induct with
  | case1 => rw [readChars] at h; cases h
  | case2 b bs ih =>
    rw [readChars] at h
    rcases List.mem_cons.1 h with hfirst | hlater
    · have hbytes := eq_of_readChar (Prod.ext hfirst.symm rfl)
      rw [hbytes]
      exact (List.prefix_append _ _).isInfix
    · have hrest : (readChar b bs).2 <:+ b :: bs :=
        (readChar_suffix b bs).trans (List.suffix_cons b bs)
      exact (ih hlater).trans hrest.isInfix

/-- **An ASCII character of a text** that is decoded of some bytes is one of them. -/
theorem mem_of_mem_decodeLossy (hc : c.toNat < 0x80) (h : c ∈ (decodeLossy bs).toList) :
    UInt8.ofNat c.toNat ∈ bs := by
  rw [decodeLossy, String.toList_ofList] at h
  obtain ⟨o, ho, hchar⟩ := List.mem_map.1 h
  cases o with
  | none =>
    rw [← hchar] at hc
    exact absurd hc (by decide)
  | some d =>
    obtain rfl : d = c := hchar
    refine (infix_of_mem_readChars ho).subset ?_
    rw [utf8EncodeChar_ascii hc]
    exact List.mem_singleton.2 rfl

/-- **An ASCII byte of a text** is one of its characters. -/
theorem mem_of_mem_encode {b : UInt8} (hb : b.toNat < 0x80) (h : b ∈ encode s) :
    Char.ofNat b.toNat ∈ s.toList := by
  obtain ⟨c, hc, hin⟩ := List.mem_flatMap.1 h
  rw [← eq_of_mem_utf8EncodeChar hb hin, Char.ofNat_toNat]
  exact hc

end Backdate.Text
