import RowCode.Fault
import RowCode.Binary.Arith
import RowCode.Decimal.Arith

/-!
# Arithmetic by type

What `+ - * /` and the sign functions do on each numeric type. Fixed-width integers give the
exact result or fail with an overflow; floats follow IEEE 754; decimals are exact but for
quotients, and a product must stay within the bound on the power of ten. A quotient by zero is
null in every type.
-/

namespace RowCode

/-- How a fixed-width integer type sits in the integers. -/
structure Window (α : Type) where
  ty : Ty
  toInt : α → Int
  /-- The member congruent to an integer. -/
  ofInt : Int → α
  least : Int
  greatest : Int

namespace Window

def int32 : Window Int32 := ⟨.int32, Int32.toInt, Int32.ofInt, -2 ^ 31, 2 ^ 31 - 1⟩

def int64 : Window Int64 := ⟨.int64, Int64.toInt, Int64.ofInt, -2 ^ 63, 2 ^ 63 - 1⟩

variable {α : Type} (w : Window α)

def contains (n : Int) : Bool :=
  w.least ≤ n && n ≤ w.greatest

def member? (n : Int) : Option α :=
  if w.contains n then some (w.ofInt n) else none

/-- The integer itself, or an overflow. -/
def exact (n : Int) : Except Fault α :=
  if w.contains n then .ok (w.ofInt n) else .error (.overflow w.ty)

/-- The member nearest to an integer. -/
def saturate (n : Int) : α :=
  w.ofInt (max w.least (min w.greatest n))

end Window

/-- The arithmetic of one type. -/
structure Arith (α : Type) where
  zero : α
  add : α → α → Except Fault α
  sub : α → α → Except Fault α
  mul : α → α → Except Fault α
  /-- There is no quotient by zero. -/
  div : α → α → Except Fault (Option α)
  neg : α → Except Fault α
  /-- The magnitude, with the least integer its own. -/
  abs : α → α
  /-- The magnitude, with an overflow for the least integer. -/
  absChecked : α → Except Fault α

namespace Arith

/-- Exact results that fit the window. -/
def ofWindow {α : Type} (w : Window α) : Arith α where
  zero := w.ofInt 0
  add a b := w.exact (w.toInt a + w.toInt b)
  sub a b := w.exact (w.toInt a - w.toInt b)
  mul a b := w.exact (w.toInt a * w.toInt b)
  div a b :=
    if w.toInt b = 0 then .ok none else some <$> w.exact ((w.toInt a).tdiv (w.toInt b))
  neg a := w.exact (-w.toInt a)
  abs a := w.ofInt (w.toInt a).natAbs
  absChecked a := w.exact (w.toInt a).natAbs

def binary (f : Format) : Arith (Binary f) where
  zero := .zero false
  add a b := .ok (a.add b)
  sub a b := .ok (a.sub b)
  mul a b := .ok (a.mul b)
  div a b := .ok (if b.isZero then none else some (a.div b))
  neg a := .ok a.neg
  abs a := a.abs
  absChecked a := .ok a.abs

def decimal : Arith Decimal where
  zero := .zero
  add a b := .ok (a.add b)
  sub a b := .ok (a.sub b)
  mul a b := if (a.mul b).isBounded then .ok (a.mul b) else .error (.overflow .decimal)
  div a b := .ok (a.div? b)
  neg a := .ok a.neg
  abs a := a.abs
  absChecked a := .ok a.abs

end Arith

def NumTy.arith : (t : NumTy) → Arith t.Carrier
  | .int32 => .ofWindow .int32
  | .int64 => .ofWindow .int64
  | .float32 => .binary .single
  | .float64 => .binary .double
  | .decimal => .decimal

/-- The binary operators of arithmetic. -/
inductive ArithOp where
  | add
  | sub
  | mul
  | div
deriving Repr, DecidableEq

namespace ArithOp

def symbol : ArithOp → String
  | add => "+"
  | sub => "-"
  | mul => "*"
  | div => "/"

def apply {α : Type} (m : Arith α) : ArithOp → α → α → Except Fault (Option α)
  | add, a, b => some <$> m.add a b
  | sub, a, b => some <$> m.sub a b
  | mul, a, b => some <$> m.mul a b
  | div, a, b => m.div a b

end ArithOp

/-- The functions that look at the sign of a number. -/
inductive SignFn where
  | pos
  | neg
  | abs
  | absCheck
deriving Repr, DecidableEq

namespace SignFn

def name : SignFn → String
  | pos => "pos"
  | neg => "neg"
  | abs => "abs"
  | absCheck => "abs_check"

def apply {α : Type} (m : Arith α) : SignFn → α → Except Fault α
  | pos, a => .ok a
  | neg, a => m.neg a
  | abs, a => .ok (m.abs a)
  | absCheck, a => m.absChecked a

end SignFn

/-- The remainder of truncated division; there is none by zero. -/
def Window.rem? {α : Type} (w : Window α) (a b : α) : Option α :=
  if w.toInt b = 0 then none else some (w.ofInt ((w.toInt a).tmod (w.toInt b)))

def IntTy.rem? : (t : IntTy) → t.Carrier → t.Carrier → Option t.Carrier
  | .int32 => Window.int32.rem?
  | .int64 => Window.int64.rem?

end RowCode
