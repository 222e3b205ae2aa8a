import RowCode.Binary.Round

/-!
# Float arithmetic

Sums, products and quotients by IEEE 754: the exact result, rounded once. Each operation settles
NaNs and infinities first and then works on the exact values of finite floats.
-/

namespace RowCode.Binary

variable {f : Format}

/-- The same float with the other sign. -/
def neg (x : Binary f) : Binary f :=
  ofMagnitude (!x.negative) x.magnitude

/-- The same float without its sign. -/
def abs (x : Binary f) : Binary f :=
  ofMagnitude false x.magnitude

/-- The sum of finite floats. An exact zero is negative only if both summands are. -/
def addFinite (x y : Binary f) : Binary f :=
  let (m, d) := x.scaled
  let (n, e) := y.scaled
  let low := min d e
  let sum := m * 2 ^ (d - low).toNat + n * 2 ^ (e - low).toNat
  if sum = 0 then zero (x.negative && y.negative)
  else ofScaled (sum < 0) sum.natAbs low

def add (x y : Binary f) : Binary f :=
  if x.isNaN || y.isNaN then nan
  else if x.isInfinite then
    if y.isInfinite && x.negative != y.negative then nan else x
  else if y.isInfinite then y
  else addFinite x y

def sub (x y : Binary f) : Binary f :=
  add x (neg y)

def mul (x y : Binary f) : Binary f :=
  let negative := x.negative != y.negative
  if x.isNaN || y.isNaN then nan
  else if x.isInfinite || y.isInfinite then
    if x.isZero || y.isZero then nan else infinity negative
  else
    let (m, d) := f.scaled x.magnitude
    let (n, e) := f.scaled y.magnitude
    ofScaled negative (m * n) (d + e)

def div (x y : Binary f) : Binary f :=
  let negative := x.negative != y.negative
  if x.isNaN || y.isNaN then nan
  else if x.isInfinite then if y.isInfinite then nan else infinity negative
  else if y.isInfinite then zero negative
  else if y.isZero then if x.isZero then nan else infinity negative
  else
    let (a, b) := x.ratio
    let (c, d) := y.ratio
    ofRatio negative (a * d) (b * c)

/-- `base` to a natural power by repeated squaring, every product rounded. The squarings and
products come in a fixed order, lowest bit of the exponent first, because their roundings show in
the result. -/
def powLoop (result base : Binary f) (n : Nat) : Binary f :=
  let result := if n % 2 = 1 then mul result base else result
  if n / 2 = 0 then result else powLoop result (mul base base) (n / 2)
termination_by n
decreasing_by omega

def pow (base : Binary f) (n : Nat) : Binary f :=
  powLoop (ofInt 1) base n

/-- The integer at or below (`up = false`) or at or above (`up = true`) a float, as a float. A
zero result keeps the sign of the argument. -/
def toIntegral (up : Bool) (x : Binary f) : Binary f :=
  if x.isFinite then
    let (num, den) := x.ratio
    let outward := up != x.negative
    let n := if outward && num % den != 0 then num / den + 1 else num / den
    ofRatio x.negative n 1
  else x

end RowCode.Binary
