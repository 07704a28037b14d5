/-!
# Floating point numbers

Binary floating point numbers of 64 bits, by exact integers: the number nearest
to a decimal (`ofDecimal`), and the fewest digits that read back as the same
number (`digits`), which is how numbers are written (`text`).
-/

namespace Backdate.Number

/-- A floating point number of 64 bits. -/
inductive Binary64 where
  | nan
  | infinite (negative : Bool)
  /-- `m · 2 ^ q`. -/
  | finite (negative : Bool) (m : Nat) (q : Int)
  deriving DecidableEq, Repr

/-- A positive quotient of natural numbers. -/
structure Quotient where
  num : Nat
  den : Nat

namespace Quotient

/-- The quotient times a power of a base. -/
def shift (x : Quotient) (base : Nat) (e : Int) : Quotient :=
  if 0 ≤ e then ⟨x.num * Nat.pow base e.toNat, x.den⟩
  else ⟨x.num, x.den * Nat.pow base (-e).toNat⟩

def le (x y : Quotient) : Bool := x.num * y.den ≤ y.num * x.den

def lt (x y : Quotient) : Bool := x.num * y.den < y.num * x.den

def floor (x : Quotient) : Nat := x.num / x.den

/-- The nearest integer, the even one of two. -/
def round (x : Quotient) : Nat :=
  let r := x.num % x.den
  if x.den < 2 * r ∨ (2 * r = x.den ∧ x.floor % 2 = 1) then x.floor + 1 else x.floor

/-- The greatest power of two that is not above the quotient. -/
def binaryOrder (x : Quotient) : Int :=
  let e : Int := x.num.log2 - x.den.log2
  if le ⟨1, 1⟩ (x.shift 2 (-e)) then e else e - 1

end Quotient

namespace Binary64

/-- The number of coefficients: each is below it. -/
def coefficients : Nat := 9007199254740992

/-- The least coefficient of a number that is not close to zero. -/
def leastNormal : Nat := 4503599627370496

/-- The number nearest to a quotient. -/
def nearest (negative : Bool) (x : Quotient) : Binary64 :=
  let q := max (x.binaryOrder - 52) (-1074)
  let m := (x.shift 2 (-q)).round
  let (m, q) := if m = coefficients then (leastNormal, q + 1) else (m, q)
  if 971 < q then .infinite negative else .finite negative m q

/-- The number nearest to `n · 10 ^ e`. Decimals far beyond the range are settled by their size. -/
def ofDecimal (negative : Bool) (n : Nat) (e : Int) : Binary64 :=
  let order := (Nat.toDigits 10 n).length + e
  if n = 0 ∨ order < -400 then .finite negative 0 (-1074)
  else if 400 < order then .infinite negative
  else nearest negative ((Quotient.mk n 1).shift 10 e)

/-- The least `k` with `x < 10 ^ k`. -/
def decimalOrder (x : Quotient) : Int :=
  if Quotient.le ⟨1, 1⟩ x then (Nat.toDigits 10 x.floor).length
  else
    let zeros := (List.range 400).find? fun j : Nat => Quotient.le ⟨1, 1⟩ (x.shift 10 (j + 1))
    Int.negOfNat (zeros.getD 0)

/-- The decimal of `n` digits nearest to `m · 2 ^ q`, if one of that length reads back as it.
Of two that are equally near the greater is taken. -/
def digits? (m : Nat) (q : Int) (n : Nat) : Option Nat :=
  let quarter (x : Nat) : Quotient := (Quotient.mk x 1).shift 2 (q - 2)
  let low := quarter (if m = leastNormal ∧ -1074 < q then 4 * m - 1 else 4 * m - 2)
  let high := quarter (4 * m + 2)
  let value := quarter (4 * m)
  let place := decimalOrder value - n
  let reads (d : Nat) : Bool :=
    let x := (Quotient.mk d 1).shift 10 place
    if m % 2 = 0 then low.le x && x.le high else low.lt x && x.lt high
  let scaled := value.shift 10 (-place)
  let down := scaled.floor
  let nearerDown := 2 * (scaled.num % scaled.den) < scaled.den
  if reads down && (nearerDown || !reads (down + 1)) then some down
  else if reads (down + 1) then some (down + 1)
  else none

/-- The fewest digits that read back as `m · 2 ^ q`, and where the point stands before them. -/
def digits (m : Nat) (q : Int) : List Char × Int :=
  let k := decimalOrder ((Quotient.mk m 1).shift 2 q)
  match (List.range 17).findSome? fun i => (digits? m q (i + 1)).map fun d => (d, i + 1) with
  | none => (['0'], 1)
  | some (d, n) =>
    let ds := Nat.toDigits 10 d
    ((ds.reverse.dropWhile (· == '0')).reverse, k + (ds.length - n))

/-- Digits with a point, written out without an exponent. A whole number ends in `.0`. -/
def positional (ds : List Char) (k : Int) : List Char :=
  if k ≤ 0 then "0.".toList ++ List.replicate (-k).toNat '0' ++ ds
  else if ds.length ≤ k then ds ++ List.replicate (k.toNat - ds.length) '0' ++ ".0".toList
  else ds.take k.toNat ++ '.' :: ds.drop k.toNat

def text : Binary64 → String
  | .nan => "NaN"
  | .infinite negative => if negative then "-inf" else "inf"
  | .finite negative m q =>
    let (ds, k) := if m = 0 then (['0'], 1) else digits m q
    String.ofList ((if negative then ['-'] else []) ++ positional ds k)

end Binary64

end Backdate.Number
