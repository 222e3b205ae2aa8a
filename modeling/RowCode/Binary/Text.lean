import RowCode.Binary.Shortest
import RowCode.Text.Numeral

/-!
# Texts of floats

A float is written in four ways. Three of them use the fewest digits that read back and differ in
a few decisions, which a `Layout` holds: listings write everything positionally (`Layout.plain`),
diagnostics keep a point and turn to exponents for large and small values (`Layout.tagged`), and
so does interchange, with a mark of its own and limits that depend on the format
(`Layout.interchange`). The cast to a string (`fixedText`) instead writes fifteen places of the
exact value and drops the zeros at their end.
-/

namespace RowCode

/-- How the shortest digits of a float are laid out. -/
structure Layout where
  /-- Which digits to take when two texts are equally near. -/
  tie : Tie
  /-- The powers of ten of the leading digit between which no exponent is written, if there is
  such a limit at all. -/
  positional : Option (Int × Int)
  /-- Whether whole numbers end in `.0`. -/
  pointZero : Bool
  /-- Whether a positive exponent has a sign. -/
  plus : Bool

namespace Layout

/-- No exponent and no `.0`. -/
def plain : Layout := ⟨.away, none, false, false⟩

/-- A point always; an exponent from `1e16` on and below `1e-4`. -/
def tagged : Layout := ⟨.away, some (-4, 15), true, false⟩

/-- A point unless there is an exponent, which stands from `1e+16` on and below `1e-5`. Singles,
with fewer digits, turn to it earlier above one and later below: from `1e+13` on and below
`1e-6`. -/
def interchange : Format → Layout
  | .single => ⟨.toEven, some (-6, 12), true, true⟩
  | .double => ⟨.toEven, some (-5, 15), true, true⟩

/-- Digits laid out positionally. -/
def writePositional (l : Layout) (x : Figures) : List Char :=
  let whole := Text.positional x.digits x.exponent
  if l.pointZero && 0 ≤ x.exponent then whole ++ ['.', '0'] else whole

/-- Digits laid out with an exponent. -/
def writeScientific (l : Layout) (x : Figures) : List Char :=
  let mark := if l.plus && 0 ≤ Text.leadingExponent x.digits x.exponent then ['e', '+'] else ['e']
  Text.scientific mark x.digits x.exponent

def write (l : Layout) (x : Figures) : List Char :=
  match l.positional with
  | none => l.writePositional x
  | some (low, high) =>
    let lead := Text.leadingExponent x.digits x.exponent
    if x.digits = 0 || (low ≤ lead && lead ≤ high) then l.writePositional x
    else l.writeScientific x

end Layout

namespace Binary

variable {f : Format}

/-- The shortest figures of a finite float, without its sign. -/
def figures (tie : Tie) (x : Binary f) : Figures :=
  if x.isZero then ⟨0, 0⟩ else f.shortest tie x.magnitude

/-- The text of a float that is not finite. -/
def special (x : Binary f) : List Char :=
  if x.isNaN then "NaN".toList else Text.signed x.negative "inf".toList

/-- A float in the given layout. -/
def text (l : Layout) (x : Binary f) : List Char :=
  if x.isFinite then Text.signed x.negative (l.write (x.figures l.tie)) else x.special

/-- The places of a float that a cast to a string keeps. -/
def castPlaces : Nat := 15

/-- Drops the zeros at the end of a fraction, but not the one after the point. -/
def dropZeros (s : List Char) : List Char :=
  let kept := (s.reverse.dropWhile (· == '0')).reverse
  if kept.getLast? = some '.' then kept ++ ['0'] else kept

/-- The value rounded to `castPlaces`, half to even, without superfluous zeros. -/
def fixedText (x : Binary f) : List Char :=
  if x.isFinite then
    let (num, den) := x.ratio
    let units := roundDiv .toEven (num * 10 ^ castPlaces) den
    Text.signed x.negative (dropZeros (Text.fixedPoint castPlaces units))
  else x.special

end Binary

end RowCode
