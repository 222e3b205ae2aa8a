import RowCode.Binary.Arith
import RowCode.Text.Numeral

/-!
# Numbers in JSON

A JSON number without fraction and exponent is an integer, as long as it fits 64 bits. Every other
number is read as a double in two roundings: as many leading digits as fit 64 bits are rounded to
a double, and the result is multiplied or divided by a power of ten, which is rounded too. The
double is therefore not always the one nearest to the number. A number too large for a double is
refused.
-/

namespace RowCode.Json

/-- A number that has been read. -/
inductive Number where
  | integer (n : Int)
  | real (x : Double)
deriving Repr, DecidableEq

/-- The parts of a number as it is written. -/
structure Parts where
  negative : Bool
  whole : List Char
  fraction : List Char
  /-- Absent if none is written. -/
  exponent : Option Int
deriving Repr, DecidableEq

/-- Takes digits into a number as long as it stays below `2 ^ 64`. Gives the number and how many
digits were taken. -/
def takeDigits (n : Nat) : List Char → Nat × Nat
  | [] => (n, 0)
  | d :: ds =>
    let next := 10 * n + Text.digitValue d
    if next < 2 ^ 64 then
      let (n, taken) := takeDigits next ds
      (n, taken + 1)
    else (n, 0)

/-- The largest power of ten that is a double. -/
def maxPower : Nat := 308

/-- The double nearest to a power of ten. -/
def powerOfTen (n : Nat) : Double :=
  .ofRatio false (10 ^ n) 1

/-- A double times a power of ten, in one rounding if the power is a double. Smaller powers are
divided off in steps; larger ones have no result. -/
def scaleByTen (x : Double) (e : Int) : Option Double :=
  if e.natAbs ≤ maxPower then
    if 0 ≤ e then
      let y := x.mul (powerOfTen e.natAbs)
      if y.isInfinite then none else some y
    else some (x.div (powerOfTen e.natAbs))
  else if x.isZero then some x
  else if 0 ≤ e then none
  else scaleByTen (x.div (powerOfTen maxPower)) (e + maxPower)
termination_by (-e).toNat
decreasing_by
  have : maxPower = 308 := rfl
  omega

namespace Parts

/-- The number as a double. -/
def toReal? (p : Parts) : Option Double :=
  let (n, taken) := takeDigits 0 p.whole
  let (n, places) := takeDigits n p.fraction
  let e := (p.whole.length - taken : Int) - places + p.exponent.getD 0
  (scaleByTen (.ofInt n) e).map fun x => if p.negative then x.neg else x

/-- Integers reach down to `-2 ^ 63` and up to `2 ^ 64 - 1`. Negative zero is none. -/
def isInteger (p : Parts) : Bool :=
  let n := Text.ofDigits p.whole
  p.fraction.isEmpty && p.exponent.isNone &&
    (if p.negative then 0 < n && n ≤ 2 ^ 63 else n < 2 ^ 64)

def toNumber? (p : Parts) : Option Number :=
  if p.isInteger then
    let n : Int := Text.ofDigits p.whole
    some (.integer (if p.negative then -n else n))
  else p.toReal?.map .real

end Parts

/-- Digits before the point: a single zero, or digits that do not start with one. -/
def readWhole? (s : List Char) : Option (List Char × List Char) :=
  match s with
  | '0' :: s => some (['0'], s)
  | s =>
    let (ds, s) := s.span Text.isDigit
    if ds = [] then none else some (ds, s)

/-- The fraction, if there is a point; it then has at least one digit. -/
def readFraction? (s : List Char) : Option (List Char × List Char) :=
  match s with
  | '.' :: s =>
    let (ds, s) := s.span Text.isDigit
    if ds = [] then none else some (ds, s)
  | s => some ([], s)

/-- The exponent, if there is one; it then has at least one digit. -/
def readExponent? (s : List Char) : Option (Option Int × List Char) :=
  match s with
  | c :: t =>
    if c = 'e' ∨ c = 'E' then
      let (negative, t) := Text.splitSign t
      let (ds, t) := t.span Text.isDigit
      let n : Int := Text.ofDigits ds
      if ds = [] then none else some (some (if negative then -n else n), t)
    else some (none, s)
  | [] => some (none, s)

/-- Reads the longest number at the front. -/
def readParts? (s : List Char) : Option (Parts × List Char) := do
  let (negative, s) := match s with
    | '-' :: s => (true, s)
    | s => (false, s)
  let (whole, s) ← readWhole? s
  let (fraction, s) ← readFraction? s
  let (exponent, s) ← readExponent? s
  some (⟨negative, whole, fraction, exponent⟩, s)

end RowCode.Json
