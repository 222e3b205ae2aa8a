import RowCode.Rounding
import RowCode.Binary.Basic

/-!
# The float nearest to a fraction

Every result that a float cannot hold exactly is rounded once, from an exact fraction, to the
nearest float; a tie goes to the one with an even last bit. All of arithmetic, conversion and
reading goes through `Format.nearest`.

The magnitude is built in one step: the fraction is counted in units of the last place `2 ^ q`,
and `q` and that count together *are* the magnitude, since a carry out of the fraction field is
an increment of the exponent field.
-/

namespace RowCode

/-- The greatest power of two that a positive fraction reaches. -/
def floorLog2 (num den : Nat) : Int :=
  let g : Int := (num.log2 : Int) - den.log2
  if den * 2 ^ g.toNat ≤ num * 2 ^ (-g).toNat then g else g - 1

namespace Format

/-- The magnitude nearest to `num / den`, at most infinity. -/
def nearest (f : Format) (num den : Nat) : Nat :=
  if num = 0 then 0
  else
    let q := max f.minExponent (floorLog2 num den - f.fractionBits)
    let units := roundDiv .toEven (num * 2 ^ (-q).toNat) (den * 2 ^ q.toNat)
    min f.infinity ((q - f.minExponent).toNat * 2 ^ f.fractionBits + units)

end Format

namespace Binary

variable {f : Format}

/-- The float nearest to a fraction with a sign; the sign is kept when the result is zero. -/
def ofRatio (negative : Bool) (num den : Nat) : Binary f :=
  ofMagnitude negative (f.nearest num den)

/-- The float nearest to `m * 2 ^ e`. -/
def ofScaled (negative : Bool) (m : Nat) (e : Int) : Binary f :=
  ofRatio negative (m * 2 ^ e.toNat) (2 ^ (-e).toNat)

/-- The float nearest to an integer. -/
def ofInt (n : Int) : Binary f :=
  ofRatio (n < 0) n.natAbs 1

/-- A decimal exponent beyond which every value overflows, and below which it vanishes. -/
def decimalReach : Int := 400

/-- The float nearest to `n * 10 ^ e`, where `n` has `count` decimal digits. Values beyond
`decimalReach` are settled by their size, so that no huge power of ten is ever computed. -/
def ofDecimalDigits (negative : Bool) (n : Nat) (count : Nat) (e : Int) : Binary f :=
  if n = 0 then zero negative
  else if decimalReach < count + e then infinity negative
  else if count + e < -decimalReach then zero negative
  else ofRatio negative (n * 10 ^ e.toNat) (10 ^ (-e).toNat)

/-- A float of one format as the nearest of another. -/
def convert {g : Format} (x : Binary f) : Binary g :=
  if x.isNaN then nan
  else if x.isInfinite then infinity x.negative
  else
    let (num, den) := x.ratio
    ofRatio x.negative num den

/-- A finite float rounded to an integer, a tie going away from zero. -/
def roundToInt? (x : Binary f) : Option Int :=
  if x.isFinite then
    let (num, den) := x.ratio
    let n : Int := roundDiv .away num den
    some (if x.negative then -n else n)
  else none

/-- The nearest integer as a float, a tie going away from zero. What is not finite stays. -/
def round (x : Binary f) : Binary f :=
  match x.roundToInt? with
  | some n => ofRatio x.negative n.natAbs 1
  | none => x

/-- What is left of a finite float without its fraction. -/
def truncate? (x : Binary f) : Option Int :=
  if x.isFinite then
    let (num, den) := x.ratio
    let n : Int := (num / den : Nat)
    some (if x.negative then -n else n)
  else none

/-- A float as a double, which it is or which it can be written as. -/
def widen : {f : Format} → Binary f → Double
  | .single, x => x.convert
  | .double, x => x

end Binary

end RowCode
