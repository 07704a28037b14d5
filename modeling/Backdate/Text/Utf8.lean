/-!
# Texts and bytes

Texts are written as UTF-8 (`encode`), and bytes are read as such. Where no
character can be read, the longest start of one that the bytes still agree with
(at least one byte) stands for a single unreadable place, so a truncated
character is one place and not several.

- `decodeLossy` puts a replacement character at each unreadable place;
- `decode?` refuses a text that has one.
-/

namespace Backdate.Text

/-- The bytes of a text. -/
def encode (s : String) : List UInt8 := s.toList.flatMap String.utf8EncodeChar

/-- The ranges of the bytes that must follow a first byte `b`, with the bits that `b`
itself contributes. No character starts with the bytes left out. -/
def owed (b : Nat) : Option (Nat × List (Nat × Nat)) :=
  let tail := (0x80, 0xBF)
  if b ≤ 0x7F then some (b, [])
  else if 0xC2 ≤ b ∧ b ≤ 0xDF then some (b % 0x20, [tail])
  else if b = 0xE0 then some (b % 0x10, [(0xA0, 0xBF), tail])
  else if b = 0xED then some (b % 0x10, [(0x80, 0x9F), tail])
  else if 0xE1 ≤ b ∧ b ≤ 0xEF then some (b % 0x10, [tail, tail])
  else if b = 0xF0 then some (b % 0x08, [(0x90, 0xBF), tail, tail])
  else if 0xF1 ≤ b ∧ b ≤ 0xF3 then some (b % 0x08, [tail, tail, tail])
  else if b = 0xF4 then some (b % 0x08, [(0x80, 0x8F), tail, tail])
  else none

/-- The bytes owed, read onto the bits `n`: the code point if all are there, and what is left
after the bytes that agree. -/
def readTail : Nat → List (Nat × Nat) → List UInt8 → Option Nat × List UInt8
  | n, [], bs => (some n, bs)
  | _, _ :: _, [] => (none, [])
  | n, (lo, hi) :: rs, b :: bs =>
    if lo ≤ b.toNat ∧ b.toNat ≤ hi then readTail (n * 0x40 + b.toNat % 0x40) rs bs
    else (none, b :: bs)

theorem readTail_suffix (n : Nat) (rs : List (Nat × Nat)) (bs : List UInt8) :
    (readTail n rs bs).2 <:+ bs := by
  induction rs generalizing n bs with
  | nil => exact List.suffix_refl bs
  | cons r rs ih =>
    cases bs with
    | nil => exact List.suffix_refl []
    | cons b bs =>
      simp only [readTail]
      split
      · exact (ih _ bs).trans (List.suffix_cons b bs)
      · exact List.suffix_refl _

/-- The first character, or `none` for an unreadable place, and the bytes after it. -/
def readChar (b : UInt8) (bs : List UInt8) : Option Char × List UInt8 :=
  match owed b.toNat with
  | none => (none, bs)
  | some (n, rs) =>
    let (code, rest) := readTail n rs bs
    (code.map Char.ofNat, rest)

theorem readChar_suffix (b : UInt8) (bs : List UInt8) : (readChar b bs).2 <:+ bs := by
  unfold readChar
  split
  · exact List.suffix_refl bs
  · exact readTail_suffix _ _ _

/-- The characters and unreadable places of a byte string. -/
def readChars : List UInt8 → List (Option Char)
  | [] => []
  | b :: bs => (readChar b bs).1 :: readChars (readChar b bs).2
termination_by bs => bs.length
decreasing_by exact Nat.lt_succ_of_le (readChar_suffix b bs).length_le

/-- The text of a byte string, with U+FFFD at each unreadable place. -/
def decodeLossy (bs : List UInt8) : String :=
  String.ofList ((readChars bs).map fun c => c.getD (Char.ofNat 0xFFFD))

/-- The text of a byte string that has no unreadable place. -/
def decode? (bs : List UInt8) : Option String :=
  ((readChars bs).mapM id).map String.ofList

end Backdate.Text
