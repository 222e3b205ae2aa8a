import RowCode.Decimal.Basic
import RowCode.Text.Digits

/-!
# Decimal arithmetic

Sums, differences and products are exact. A quotient is exact if it has at most a hundred digits
and is otherwise rounded to a hundred digits, half up in magnitude.

The scale of a result is part of what these functions define, since a pair is kept as it is
produced. Adding a zero leaves the other summand and raises its scale by at most
`zeroPadding` places. A factor that is recognised as one gives the other factor in normal form,
and a divisor that is recognised as one leaves the dividend as it is. The scales of a product and
of a quotient wrap around at 64 bits; only a zero may have a scale so large that this matters.
-/

namespace RowCode.Decimal

def neg (d : Decimal) : Decimal :=
  ⟨-d.unscaled, d.scale⟩

def abs (d : Decimal) : Decimal :=
  ⟨d.unscaled.natAbs, d.scale⟩

/-- How many places a zero summand may add. -/
def zeroPadding : Int := 15

/-- `d + 0`, where the zero has the given scale. -/
def addZero (d : Decimal) (scale : Int) : Decimal :=
  d.rescale (d.scale + max 0 (min zeroPadding (scale - d.scale)))

def add (a b : Decimal) : Decimal :=
  if b.isZero then a.addZero b.scale
  else if a.isZero then b.addZero a.scale
  else
    let scale := max a.scale b.scale
    ⟨(a.rescale scale).unscaled + (b.rescale scale).unscaled, scale⟩

def sub (a b : Decimal) : Decimal :=
  let scale := max a.scale b.scale
  ⟨(a.rescale scale).unscaled - (b.rescale scale).unscaled, scale⟩

/-- The most places at which a one is recognised: `10 ^ 38` is the largest power of ten below
`2 ^ 128`. -/
def onePlaces : Nat := 38

/-- Whether a decimal is recognised as one. A one with more than `onePlaces` places is not, and is
multiplied and divided by like any other number. -/
def isOne (d : Decimal) : Bool :=
  0 ≤ d.scale && d.scale ≤ onePlaces && d.unscaled = 10 ^ d.scale.toNat

/-- A scale within 64 bits, to which it is reduced by wrapping around. -/
def wrapScale (scale : Int) : Int :=
  scale.bmod (2 ^ 64)

/-- The exact product. -/
def mul (a b : Decimal) : Decimal :=
  if a.isOne then b.normal
  else if b.isOne then a.normal
  else ⟨a.unscaled * b.unscaled, wrapScale (a.scale + b.scale)⟩

/-! ## Division -/

/-- Multiplies a positive numerator by ten until it reaches the denominator, and counts. -/
def raise (num den : Nat) (count : Nat) : Nat × Nat :=
  if 0 < num ∧ num < den then raise (10 * num) den (count + 1) else (num, count)
termination_by den - num
decreasing_by omega

/-- Appends at most `room` digits to a quotient with remainder `rem`. Gives the quotient, what
remains, and the number of digits appended. -/
def longDivide (den : Nat) : (room : Nat) → (quotient rem appended : Nat) → Nat × Nat × Nat
  | 0, quotient, rem, appended => (quotient, rem, appended)
  | room + 1, quotient, rem, appended =>
    if rem = 0 then (quotient, rem, appended)
    else longDivide den room (10 * quotient + 10 * rem / den) (10 * rem % den) (appended + 1)

/-- The most digits of a quotient that is not exact. -/
def quotientDigits : Nat := 100

/-- The quotient of two positive integers, as an unscaled integer and a scale. -/
def divideNat (num den : Nat) : Nat × Nat :=
  let (num, raised) := raise num den 0
  let quotient := num / den
  let room := quotientDigits - Text.digitCount quotient
  let (quotient, rem, appended) := longDivide den room quotient (num % den) 0
  let rounded := if 5 ≤ 10 * rem / den then quotient + 1 else quotient
  (rounded, raised + appended)

/-- The quotient by a nonzero decimal. -/
def quotient (a b : Decimal) : Decimal :=
  if a.isZero || b.isOne then a
  else if a.unscaled = b.unscaled then ⟨1, wrapScale (a.scale - b.scale)⟩
  else
    let (n, places) := divideNat a.unscaled.natAbs b.unscaled.natAbs
    ⟨if a.negative != b.negative then -(n : Int) else n, wrapScale (a.scale - b.scale + places)⟩

/-- The quotient; there is none by zero. -/
def div? (a b : Decimal) : Option Decimal :=
  if b.isZero then none else some (a.quotient b)

end RowCode.Decimal
