/-!
# Decimals

A decimal is a pair of an unscaled integer and a scale, and stands for
`unscaled * 10 ^ (-scale)`. The pair is kept as operations produce it: `1.50` and `1.5` are
different pairs of one value. `normal` picks one pair for each value, the one without trailing
zeros, so that two decimals have the same value exactly if they have the same normal form. The
order looks at the value alone.
-/

namespace RowCode

-- Powers of numbers are those of the core library, also where an algebra library is loaded.
attribute [instance (default + 1), default_instance (high + 1)] instPowNat

/-- The number `unscaled * 10 ^ (-scale)`. -/
structure Decimal where
  unscaled : Int
  scale : Int
deriving Repr, DecidableEq

namespace Decimal

def zero : Decimal := ⟨0, 0⟩

def ofInt (n : Int) : Decimal := ⟨n, 0⟩

def isZero (d : Decimal) : Bool :=
  d.unscaled = 0

def negative (d : Decimal) : Bool :=
  d.unscaled < 0

/-- The same value written with another scale, at least as large. Zero takes any scale. -/
def rescale (d : Decimal) (scale : Int) : Decimal :=
  if d.unscaled = 0 then ⟨0, scale⟩
  else ⟨d.unscaled * 10 ^ (scale - d.scale).toNat, scale⟩

/-- Moves factors ten out of a nonzero unscaled integer. -/
def strip (n : Int) (scale : Int) : Decimal :=
  if n ≠ 0 ∧ n % 10 = 0 then strip (n / 10) (scale - 1) else ⟨n, scale⟩
termination_by n.natAbs
decreasing_by omega

/-- The pair without trailing zeros; zero has scale zero. -/
def normal (d : Decimal) : Decimal :=
  if d.unscaled = 0 then zero else strip d.unscaled d.scale

/-- The power of ten of the normal form. -/
def exponent (d : Decimal) : Int :=
  -d.normal.scale

/-- The largest power of ten that a decimal may carry, in either direction. -/
def maxExponent : Nat := 4096

/-- Whether the power of ten is within `maxExponent`. -/
def isBounded (d : Decimal) : Bool :=
  d.exponent.natAbs ≤ maxExponent

/-- The order of values. Zero is told from other numbers by sign alone, so that its scale, which
no bound limits, is never used as a power of ten. -/
def compare (a b : Decimal) : Ordering :=
  if a.unscaled = 0 ∨ b.unscaled = 0 then Ord.compare a.unscaled b.unscaled
  else
    let scale := max a.scale b.scale
    Ord.compare (a.rescale scale).unscaled (b.rescale scale).unscaled

theorem compare_self (d : Decimal) : d.compare d = .eq := by
  rw [compare]
  split
  · exact Std.compare_self
  · exact Std.compare_self

end Decimal

end RowCode
