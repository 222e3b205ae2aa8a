import RowCode.Text.Digits

/-!
# Numerals

The shapes in which numbers are read and written. `readInt?` reads an integer, `Literal` is the
decomposition of a number with a fraction and an exponent, and `positional` and `scientific`
write `n * 10 ^ e` with and without an exponent.
-/

namespace RowCode.Text

/-- Takes one sign off the front; `true` is minus. -/
def splitSign : List Char → Bool × List Char
  | '-' :: s => (true, s)
  | '+' :: s => (false, s)
  | s => (false, s)

/-- A natural number written in digits alone. -/
def readNat? (s : List Char) : Option Nat :=
  if s ≠ [] ∧ s.all isDigit then some (ofDigits s) else none

/-- An integer: at most one sign, then digits. -/
def readInt? (s : List Char) : Option Int :=
  let (negative, s) := splitSign s
  (readNat? s).map fun n => if negative then -(n : Int) else n

/-- A number without its sign: digits before and after the point, and the exponent of ten. -/
structure Literal where
  whole : List Char
  fraction : List Char
  exponent : Int
deriving Repr, DecidableEq

/-- From here on the digits of an exponent are passed over. -/
def exponentBound : Nat := 2 ^ 16

/-- The size of an exponent. It stops growing once it has reached `exponentBound`: a number with
so large an exponent is zero or infinite, unless tens of thousands of digits make up for it. -/
def exponentSize (ds : List Char) : Nat :=
  ds.foldl (fun n c => if n < exponentBound then 10 * n + digitValue c else n) 0

/-- The exponent part, absent or introduced by an `e` of either case. -/
def readExponent? : List Char → Option Int
  | [] => some 0
  | c :: s =>
    if c = 'e' ∨ c = 'E' then
      let (negative, ds) := splitSign s
      let n : Int := exponentSize ds
      if ds ≠ [] ∧ ds.all isDigit then some (if negative then -n else n) else none
    else none

/-- Digits with an optional point and an optional exponent; at least one digit must stand before
or after the point. -/
def readLiteral? (s : List Char) : Option Literal :=
  let (whole, s) := s.span isDigit
  let (fraction, s) := match s with
    | '.' :: s => s.span isDigit
    | s => ([], s)
  if whole = [] ∧ fraction = [] then none
  else (readExponent? s).map fun e => ⟨whole, fraction, e⟩

namespace Literal

/-- All digits, as one integer. -/
def digits (l : Literal) : Nat :=
  ofDigits (l.whole ++ l.fraction)

/-- The power of ten that goes with `digits`. -/
def scale (l : Literal) : Int :=
  l.exponent - l.fraction.length

end Literal

def zeros (n : Nat) : List Char :=
  List.replicate n '0'

/-- The digits of `n * 10 ^ e` with the point in its place, and no exponent. -/
def positional (n : Nat) (e : Int) : List Char :=
  if n = 0 then ['0']
  else
    let ds := digits n
    if 0 ≤ e then ds ++ zeros e.toNat
    else
      let places := (-e).toNat
      if places < ds.length then
        ds.take (ds.length - places) ++ '.' :: ds.drop (ds.length - places)
      else '0' :: '.' :: zeros (places - ds.length) ++ ds

/-- The power of ten of the leading digit of `n * 10 ^ e`. -/
def leadingExponent (n : Nat) (e : Int) : Int :=
  (digits n).length - 1 + e

/-- One digit, the others after a point, and the exponent behind `mark`. -/
def scientific (mark : List Char) (n : Nat) (e : Int) : List Char :=
  match digits n with
  | [] => []
  | [d] => d :: mark ++ ofInt (leadingExponent n e)
  | d :: ds => d :: '.' :: ds ++ mark ++ ofInt (leadingExponent n e)

/-- `n / 10 ^ places`, with all its places written out. -/
def fixedPoint (places : Nat) (n : Nat) : List Char :=
  let ds := digits n
  let ds := zeros (places + 1 - ds.length) ++ ds
  ds.take (ds.length - places) ++ '.' :: ds.drop (ds.length - places)

end RowCode.Text
