/-!
# Binary floating point numbers

A binary float is its bits: a sign, an exponent field and a fraction. Keeping the bits, rather
than a number with extra cases, keeps every pattern that a program may carry, the payload of a
NaN included.

Everything else is read off the *magnitude*, the bits without the sign, taken as one number. The
magnitudes below `Format.infinity` list the non-negative finite values in increasing order, so
that the order of values is the order of magnitudes and the next representable value is the
successor. `Format.scaled` gives the value of a magnitude exactly, as an integer times a power
of two.
-/

namespace RowCode

-- Powers of numbers are those of the core library, also where an algebra library is loaded.
attribute [instance (default + 1), default_instance (high + 1)] instPowNat

/-- The two interchange formats, of 32 and of 64 bits. -/
inductive Format where
  | single
  | double
deriving Repr, DecidableEq

namespace Format

/-- Bits of the fraction as it is stored, without the leading one. -/
@[reducible] def fractionBits : Format → Nat
  | single => 23
  | double => 52

@[reducible] def exponentBits : Format → Nat
  | single => 8
  | double => 11

@[reducible] def width (f : Format) : Nat :=
  f.fractionBits + f.exponentBits + 1

/-- The sign bit, which is also the number of magnitudes. -/
def signBit (f : Format) : Nat :=
  2 ^ (f.fractionBits + f.exponentBits)

/-- The magnitude of infinity; those above it are not numbers. -/
def infinity (f : Format) : Nat :=
  (2 ^ f.exponentBits - 1) * 2 ^ f.fractionBits

/-- Every finite value is a whole multiple of two to this power. -/
def minExponent : Format → Int
  | single => -149
  | double => -1074

/-- The value of a finite magnitude, as `(m, e)` for `m * 2 ^ e`. -/
def scaled (f : Format) (magnitude : Nat) : Nat × Int :=
  let field := magnitude / 2 ^ f.fractionBits
  let fraction := magnitude % 2 ^ f.fractionBits
  if field = 0 then (fraction, f.minExponent)
  else (2 ^ f.fractionBits + fraction, f.minExponent + (field - 1 : Nat))

end Format

/-- A float of the given format, as its bits. -/
structure Binary (f : Format) where
  bits : BitVec f.width
deriving Repr, DecidableEq

abbrev Single := Binary .single

abbrev Double := Binary .double

namespace Binary

variable {f : Format}

def negative (x : Binary f) : Bool :=
  f.signBit ≤ x.bits.toNat

/-- The bits without the sign. -/
def magnitude (x : Binary f) : Nat :=
  x.bits.toNat % f.signBit

def ofMagnitude (negative : Bool) (magnitude : Nat) : Binary f :=
  ⟨BitVec.ofNat _ (if negative then f.signBit + magnitude else magnitude)⟩

def isNaN (x : Binary f) : Bool :=
  f.infinity < x.magnitude

def isInfinite (x : Binary f) : Bool :=
  x.magnitude = f.infinity

def isFinite (x : Binary f) : Bool :=
  x.magnitude < f.infinity

/-- Both zeros, the positive and the negative one. -/
def isZero (x : Binary f) : Bool :=
  x.magnitude = 0

def zero (negative : Bool) : Binary f :=
  ofMagnitude negative 0

def infinity (negative : Bool) : Binary f :=
  ofMagnitude negative f.infinity

/-- The quiet NaN without payload, which operations give as their result. -/
def nan : Binary f :=
  ofMagnitude false (f.infinity + 2 ^ (f.fractionBits - 1))

/-- The value of a finite float, as `(m, e)` for `m * 2 ^ e`. -/
def scaled (x : Binary f) : Int × Int :=
  let (m, e) := f.scaled x.magnitude
  (if x.negative then -m else m, e)

/-- The absolute value of a finite float as a fraction. -/
def ratio (x : Binary f) : Nat × Nat :=
  let (m, e) := f.scaled x.magnitude
  (m * 2 ^ e.toNat, 2 ^ (-e).toNat)

/-! ## Order

Two orders are in use. Operators compare as IEEE 754 asks: a NaN is unordered, even with itself.
Rows are grouped and sorted by a total order, in which all NaNs are equal and above everything
else. Both take the two zeros as equal. -/

/-- The place of a float in the total order. -/
def rank (x : Binary f) : Int :=
  if x.isNaN then f.infinity + 1
  else if x.negative then -x.magnitude
  else x.magnitude

/-- The order of numbers; there is none with a NaN. -/
def partialCompare (x y : Binary f) : Option Ordering :=
  if x.isNaN || y.isNaN then none else some (compare x.rank y.rank)

/-- The total order. -/
def totalCompare (x y : Binary f) : Ordering :=
  compare x.rank y.rank

/-- Equal as numbers, or both not a number. -/
def same (x y : Binary f) : Bool :=
  (x.isNaN && y.isNaN) || x.partialCompare y == some .eq

theorem totalCompare_self (x : Binary f) : x.totalCompare x = .eq :=
  Std.compare_self

theorem same_self (x : Binary f) : x.same x = true := by
  cases hx : x.isNaN with
  | true => simp [same, hx]
  | false => simp [same, partialCompare, hx]

end Binary

end RowCode
