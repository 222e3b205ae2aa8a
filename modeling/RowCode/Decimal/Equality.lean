import RowCode.Decimal.Basic

/-!
# Equality of decimals

`Decimal.same` tells whether two decimals are equal. With one scale that is a matter of the
unscaled integers. With two scales one integer has to be the other times a power of ten, and the
product is not built: `matchWords` walks through the words of both integers, the lowest first, and
compares each word of the one with the word that the product has in its place.

The walk keeps its sum in 64 bits and loses what does not fit. So `same` is not equality of value,
though it comes close: a few pairs of one value are told apart, and a few pairs of different
values pass for equal. All of them have scales that differ by ten. With fewer zeros a product of
words stays far below 64 bits; with more, a product that fits leaves room for the carry, or the
walk is not taken. `Decimal.compare` is exact, but operators and keys of groups go by `same`.
-/

namespace RowCode.Decimal

/-- The words of a number in base `2 ^ 32`, the lowest first. Zero has none. -/
def words (n : Nat) : List Nat :=
  if n = 0 then [] else n % 2 ^ 32 :: words (n / 2 ^ 32)
termination_by n
decreasing_by omega

/-- Whether the words `as` are those of `bs` times `power`, where `carry` comes from the words
below. There is no answer if the product of a word does not fit 64 bits. The sum with the carry
may not fit either; it wraps around, and the carry it should have left is lost. -/
def matchWords (power : Nat) : (carry : Nat) → (as bs : List Nat) → Option Bool
  | carry, [], [] => some (carry = 0)
  | _, [], _ :: _ => some false
  | carry, a :: as, [] => if a = carry then matchWords power 0 as [] else some false
  | carry, a :: as, b :: bs =>
    if 2 ^ 64 ≤ b * power then none
    else
      let sum := (b * power + carry) % 2 ^ 64
      if a = sum % 2 ^ 32 then matchWords power (sum / 2 ^ 32) as bs else some false

/-- The most zeros for which words are matched: `10 ^ 19` is the largest power of ten below
`2 ^ 64`. -/
def matchedZeros : Nat := 19

/-- Whether `a = b * 10 ^ zeros`, for positive numbers. A glance at the highest bits comes first.
With more zeros than `matchedZeros`, or where words give no answer, the product decides. -/
def isShifted (a b zeros : Nat) : Bool :=
  if a.log2 < b.log2 + (10 ^ zeros).log2 then false
  else
    let matched := if zeros ≤ matchedZeros then matchWords (10 ^ zeros) 0 (words a) (words b)
      else none
    matched.getD (a = b * 10 ^ zeros)

/-- Equal, in the sense of operators and groups. -/
def same (a b : Decimal) : Bool :=
  if a.unscaled.sign ≠ b.unscaled.sign then false
  else if a.isZero then true
  else
    let m := a.unscaled.natAbs
    let n := b.unscaled.natAbs
    if a.scale = b.scale then m = n
    else if b.scale < a.scale then isShifted m n (a.scale - b.scale).toNat
    else isShifted n m (b.scale - a.scale).toNat

theorem same_self (d : Decimal) : d.same d = true := by
  simp [same]

end RowCode.Decimal
