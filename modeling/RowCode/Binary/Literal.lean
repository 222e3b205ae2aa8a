import RowCode.Binary.Round
import RowCode.Text.Numeral

/-!
# Reading floats

A float is read from digits with an optional point and exponent, or from one of the words `inf`,
`infinity` and `nan` in any case. The digits are rounded once, to the float nearest to the exact
decimal value; a value too large to represent gives infinity.
-/

namespace RowCode.Binary

variable {f : Format}

/-- The float nearest to a decimal literal. -/
def ofLiteral (negative : Bool) (l : Text.Literal) : Binary f :=
  ofDecimalDigits negative l.digits (Text.digitCount l.digits) l.scale

/-- Reads a float without blanks around it. -/
def read? (s : List Char) : Option (Binary f) :=
  let (negative, s) := Text.splitSign s
  let word := String.ofList (s.map Char.toLower)
  if word = "inf" ∨ word = "infinity" then some (infinity negative)
  else if word = "nan" then some nan
  else (Text.readLiteral? s).map (ofLiteral negative)

end RowCode.Binary
