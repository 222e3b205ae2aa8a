import RowCode.Rounding
import RowCode.Binary.Literal
import RowCode.Binary.Text
import RowCode.Binary.Arith
import RowCode.Decimal.Literal

/-!
# Decimals and other numbers

A decimal becomes an integer by rounding, a tie going away from zero. A float becomes a decimal
through its shortest text.

A decimal becomes a float in two ways. With a positive scale it is read off its digits, rounded
once. With a negative scale the integer and the power of ten are rounded on their own and then
multiplied, which may be off the nearest float. Before either, digits far beyond the precision of
a float are cut off, nineteen at a time.
-/

namespace RowCode.Decimal

/-- The nearest integer, a tie going away from zero. -/
def roundToInt (d : Decimal) : Int :=
  if d.unscaled = 0 then 0
  else if d.scale ≤ 0 then d.unscaled * 10 ^ (-d.scale).toNat
  else
    let n : Int := roundDiv .away d.unscaled.natAbs (10 ^ d.scale.toNat)
    if d.negative then -n else n

/-- A lower bound for the number of digits, from the number of bits. -/
def roughDigits (n : Nat) : Nat :=
  Text.digitCount (2 ^ (n.log2 + 2)) - 1

/-- How many digits are cut off at a time, and how many are always kept. -/
def cutDigits : Nat := 19

def keptDigits : Nat := 25

/-- The decimal without the digits that no float can show. -/
def cut (n : Nat) (scale : Int) : Nat × Int :=
  let count := cutDigits * ((roughDigits n - keptDigits) / cutDigits)
  (n / 10 ^ count, scale - count)

/-- The magnitude of a nonzero decimal as a double. -/
def magnitudeToDouble (n : Nat) (scale : Int) : Double :=
  if scale = 0 then .ofInt n
  else
    let (n, scale) := cut n scale
    if scale ≤ 0 then .mul (.ofInt n) (.pow (.ofInt 10) (-scale).toNat)
    else .ofDecimalDigits false n (Text.digitCount n) (-scale)

def toDouble (d : Decimal) : Double :=
  if d.unscaled = 0 then .zero false
  else
    let x := magnitudeToDouble d.unscaled.natAbs d.scale
    if d.negative then x.neg else x

def toSingle (d : Decimal) : Single :=
  d.toDouble.convert

/-- The decimal that the shortest text of a finite float denotes. -/
def ofBinary {f : Format} (x : Binary f) : Except Refusal Decimal :=
  if x.isFinite then parse (String.ofList (x.text .plain)) else .error .malformed

/-- The exact value of a finite float. -/
def ofBinaryExact {f : Format} (x : Binary f) : Decimal :=
  let (m, e) := x.scaled
  if 0 ≤ e then ⟨m * 2 ^ e.toNat, 0⟩ else ⟨m * 5 ^ (-e).toNat, -e⟩

end RowCode.Decimal
