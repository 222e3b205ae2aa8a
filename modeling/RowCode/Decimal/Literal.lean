import RowCode.Decimal.Basic
import RowCode.Text.Blank
import RowCode.Text.Numeral

/-!
# Reading decimals

A decimal literal is a mantissa and an optional exponent. The mantissa is a signed digit string
in which underscores may separate digits; its first point is taken out before anything else is
looked at, so that a sign may also follow the point. The scale counts the characters after the
point, underscores apart, less the exponent.

`readPair?` reads the literal as it stands; `parse` also removes blanks around it and refuses
values whose power of ten is out of bounds.
-/

namespace RowCode.Decimal

/-- Why a text is not accepted as a decimal. -/
inductive Refusal where
  /-- The text is not a decimal literal. -/
  | malformed
  /-- The power of ten is beyond `maxExponent`. -/
  | unbounded
deriving Repr, DecidableEq

/-- Takes the first point out of a mantissa and counts the decimals behind it. -/
def splitPoint (s : List Char) : List Char × Nat :=
  let (lead, tail) := s.span (· ≠ '.')
  let trail := tail.drop 1
  (lead ++ trail, (trail.filter (· ≠ '_')).length)

/-- Digits in which underscores may follow the first one. -/
def readGrouped? (s : List Char) : Option Nat :=
  let figures := s.filter (· ≠ '_')
  if s.head? = some '_' then none else Text.readNat? figures

/-- Digits of a mantissa behind at most one sign. -/
def readUnscaled? (s : List Char) : Option Int :=
  let (negative, s) := Text.splitSign s
  (readGrouped? s).map fun n => if negative then -(n : Int) else n

/-- The exponent of ten, behind an `e` of either case; absent it is zero. -/
def readPower? : List Char → Option Int
  | [] => some 0
  | _ :: s => Text.readInt? s

/-- Scales are 64-bit integers. -/
def isScale (s : Int) : Bool :=
  -2 ^ 63 ≤ s && s < 2 ^ 63

/-- Reads a literal without blanks around it. -/
def readPair? (s : List Char) : Option Decimal := do
  let (mantissa, power) := s.span fun c => c ≠ 'e' ∧ c ≠ 'E'
  let power ← readPower? power
  let (figures, decimals) := splitPoint mantissa
  let unscaled ← readUnscaled? figures
  let scale := decimals - power
  if isScale scale then some ⟨unscaled, scale⟩ else none

/-- A decimal whose power of ten is within bounds. -/
def bounded (d : Decimal) : Except Refusal Decimal :=
  if d.isBounded then .ok d else .error .unbounded

/-- Reads a decimal with blanks around it. -/
def parse (s : String) : Except Refusal Decimal :=
  match readPair? (Text.stripped s) with
  | some d => bounded d
  | none => .error .malformed

end RowCode.Decimal
