import RowCode.Decimal.Basic
import RowCode.Text.Numeral

/-!
# Texts of decimals

Listings show the value (`text`): the normal form without an exponent, so equal decimals look
equal. Interchange shows the pair (`exchangeText`): trailing zeros are kept, and numbers with
many zeros next to the point are written with an exponent instead.
-/

namespace RowCode.Decimal

/-- Plain notation of the value, without trailing zeros. -/
def text (d : Decimal) : List Char :=
  let d := d.normal
  Text.signed d.negative (Text.positional d.unscaled.natAbs (-d.scale))

/-- The most zeros between the point and the first digit that are written out. -/
def maxLeadingZeros : Nat := 5

/-- The most zeros behind the digits that are written out. -/
def maxTrailingZeros : Nat := 15

/-- The notation of a magnitude with its scale. A very small number is one digit, a point and an
exponent behind `E`; a very large one is all its digits and the count of zeros behind `e+`. -/
def exchangeMagnitude (n : Nat) (scale : Int) : List Char :=
  if n = 0 then ['0']
  else if maxLeadingZeros < scale - (Text.digits n).length then Text.scientific ['E'] n (-scale)
  else if scale < -maxTrailingZeros then Text.digits n ++ 'e' :: '+' :: Text.ofInt (-scale)
  else Text.positional n (-scale)

/-- The pair, with its trailing zeros. -/
def exchangeText (d : Decimal) : List Char :=
  Text.signed d.negative (exchangeMagnitude d.unscaled.natAbs d.scale)

/-- The 64-bit limbs of a number, lowest first; zero has none. -/
def limbs (n : Nat) : List Nat :=
  if n = 0 then [] else n % 2 ^ 64 :: limbs (n / 2 ^ 64)
termination_by n
decreasing_by omega

def signName (n : Int) : String :=
  if n < 0 then "Minus" else if n = 0 then "NoSign" else "Plus"

/-- The parts of the pair, for diagnostics. -/
def tagged (d : Decimal) : List Char :=
  let limbTexts := (limbs d.unscaled.natAbs).map Text.digits
  "Decimal(BigDecimal(sign=".toList ++ (signName d.unscaled).toList ++
    ", scale=".toList ++ Text.ofInt d.scale ++
    ", digits=[".toList ++ List.intercalate ", ".toList limbTexts ++ "]))".toList

end RowCode.Decimal
