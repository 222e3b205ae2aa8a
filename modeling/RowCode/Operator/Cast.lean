import RowCode.Decimal.Convert
import RowCode.Operator.Arithmetic

/-!
# Casts

A cast turns a value of one type into a value of another. It comes in two kinds that differ only
where the value does not fit the target: the plain cast wraps (64-bit to 32-bit integers) or
saturates (anything fractional to an integer), the checked cast fails with an overflow. Reading a
text fails in both kinds if the text is not a number of the target type.

Every pair of different value types has a cast but one: a string has no cast to a boolean.
-/

namespace RowCode

namespace Cast

/-- The pairs of types between which a cast is defined. -/
def Defined (src dst : ValueTy) : Prop :=
  src ≠ dst ∧ ¬(src = .string ∧ dst = .bool)

instance (src dst : ValueTy) : Decidable (Defined src dst) :=
  inferInstanceAs (Decidable (_ ∧ _))

/-- An integer into a window, if it fits or is made to fit. -/
def intoWindow {α : Type} (w : Window α) (checked : Bool) (n : Int) : Except Fault α :=
  if checked then w.exact n else .ok (w.saturate n)

/-- A float into a window, its fraction dropped. NaN is zero, and what lies outside of the window
is the nearer bound. -/
def truncateInto {α : Type} {f : Format} (w : Window α) (x : Binary f) : α :=
  match x.truncate? with
  | some n => w.saturate n
  | none =>
    if x.isNaN then w.ofInt 0
    else if x.negative then w.ofInt w.least
    else w.ofInt w.greatest

/-- Whether a double lies between two others, all of them compared as floats. -/
def isBetween (least greatest x : Double) : Bool :=
  !(x.isNaN || (x.partialCompare least).any Ordering.isLT ||
    (x.partialCompare greatest).any Ordering.isGT)

/-- A double rounded into a window, the bounds of which are compared as doubles. -/
def roundInto {α : Type} (w : Window α) (x : Double) : Except Fault α :=
  let rounded := x.round
  if isBetween (.ofInt w.least) (.ofInt w.greatest) rounded then .ok (truncateInto w rounded)
  else .error (.overflow w.ty)

/-- A double rounded to 64 bits. The greatest integer is not a double; as a bound it becomes the
power of two above it, which has to be refused on its own. -/
def roundInto64 (x : Double) : Except Fault Int64 :=
  if (x.round.partialCompare (.ofInt Window.int64.greatest)).any Ordering.isGE then
    .error (.overflow .int64)
  else roundInto .int64 x

/-- A float that must be finite when it comes from a finite number. -/
def keepFinite {f : Format} (ty : Ty) (checked fromFinite : Bool) (x : Binary f) :
    Except Fault (Binary f) :=
  if checked && fromFinite && !x.isFinite then .error (.overflow ty) else .ok x

/-- An integer out of a text. -/
def readInto {α : Type} (w : Window α) (s : String) : Except Fault α :=
  match (Text.readInt? (Text.stripped s)).bind w.member? with
  | some n => .ok n
  | none => .error (.invalidCast s w.ty)

/-- A float out of a text. -/
def readFloat {f : Format} (ty : Ty) (s : String) : Except Fault (Binary f) :=
  match Binary.read? (Text.stripped s) with
  | some x => .ok x
  | none => .error (.invalidCast s ty)

/-- The decimal of a float. -/
def toDecimal {f : Format} (x : Binary f) : Except Fault Decimal :=
  (Decimal.ofBinary x).mapError (Fault.ofRefusal (String.ofList (x.text .plain)))

/-- An integer that came out of a fixed-width type or a boolean. Only the plain cast to 32 bits
wraps. -/
def ofInteger (checked : Bool) (n : Int) : (dst : ValueTy) → Except Fault dst.Carrier
  | .int32 => if checked then Window.int32.exact n else .ok (Window.int32.ofInt n)
  | .int64 => .ok (Window.int64.ofInt n)
  | .bool => .ok (n != 0)
  | .float32 => .ok (.ofInt n)
  | .float64 => .ok (.ofInt n)
  | .decimal => .ok (.ofInt n)
  | .string => .ok (String.ofList (Text.ofInt n))

def ofBool (b : Bool) : (dst : ValueTy) → Except Fault dst.Carrier
  | .bool => .ok b
  | .string => .ok (if b then "true" else "false")
  | dst => ofInteger true (if b then 1 else 0) dst

def ofFloat {f : Format} (checked : Bool) (x : Binary f) :
    (dst : ValueTy) → Except Fault dst.Carrier
  | .int32 => if checked then roundInto .int32 x.widen else .ok (truncateInto .int32 x.round)
  | .int64 => if checked then roundInto64 x.widen else .ok (truncateInto .int64 x.round)
  | .bool => .ok (!x.isZero)
  | .float32 => keepFinite .float32 checked x.isFinite x.convert
  | .float64 => .ok x.convert
  | .decimal => toDecimal x
  | .string => .ok (String.ofList x.fixedText)

def ofDecimal (checked : Bool) (d : Decimal) : (dst : ValueTy) → Except Fault dst.Carrier
  | .int32 => intoWindow .int32 checked d.roundToInt
  | .int64 => intoWindow .int64 checked d.roundToInt
  | .bool => .ok (!d.isZero)
  | .float32 => keepFinite .float32 checked true d.toSingle
  | .float64 => keepFinite .float64 checked true d.toDouble
  | .decimal => .ok d
  | .string => .ok (String.ofList d.text)

def ofString (s : String) : (dst : ValueTy) → Except Fault dst.Carrier
  | .int32 => readInto .int32 s
  | .int64 => readInto .int64 s
  | .bool => .error (.invalidCast s .bool)
  | .float32 => readFloat .float32 s
  | .float64 => readFloat .float64 s
  | .decimal => readDecimal s
  | .string => .ok s

/-- The cast between two types, in either kind. -/
def convert (checked : Bool) : (src dst : ValueTy) → src.Carrier → Except Fault dst.Carrier
  | .int32, dst, n => ofInteger checked n.toInt dst
  | .int64, dst, n => ofInteger checked n.toInt dst
  | .bool, dst, b => ofBool b dst
  | .float32, dst, x => ofFloat checked x dst
  | .float64, dst, x => ofFloat checked x dst
  | .decimal, dst, d => ofDecimal checked d dst
  | .string, dst, s => ofString s dst

end Cast

end RowCode
