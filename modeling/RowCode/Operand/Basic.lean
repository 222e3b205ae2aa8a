import RowCode.Ty
import RowCode.Binary.Basic
import RowCode.Decimal.Basic

/-!
# Operands and rows

A scalar is a value of one of the seven value types. An operand is a scalar or null, and a row is
a list of operands. `Ty.Carrier` gives the plain values behind a type tag, so that the operators
can be written on numbers and texts; `Ty.wrap` and `Scalar.carried?` lead between the two views,
and `carried?_eq_some_iff` says that they are inverse.
-/

namespace RowCode

/-- A value that is not null. -/
inductive Scalar where
  | int32 (n : Int32)
  | int64 (n : Int64)
  | bool (b : Bool)
  | float32 (x : Single)
  | float64 (x : Double)
  | decimal (d : Decimal)
  | string (s : String)
deriving Repr, DecidableEq

/-- A scalar, or null. -/
abbrev Operand := Option Scalar

/-- One row: its columns in order. -/
abbrev Row := List Operand

namespace Ty

/-- The plain values of a type. The null type has none. -/
@[reducible] def Carrier : Ty → Type
  | null => Empty
  | int32 => Int32
  | int64 => Int64
  | bool => Bool
  | float32 => Single
  | float64 => Double
  | decimal => Decimal
  | string => String

/-- A plain value as a scalar. -/
def wrap : (t : Ty) → t.Carrier → Scalar
  | null, v => nomatch v
  | int32, v => .int32 v
  | int64, v => .int64 v
  | bool, v => .bool v
  | float32, v => .float32 v
  | float64, v => .float64 v
  | decimal, v => .decimal v
  | string, v => .string v

end Ty

@[reducible] def NumTy.Carrier (t : NumTy) : Type := t.ty.Carrier

@[reducible] def IntTy.Carrier (t : IntTy) : Type := t.ty.Carrier

@[reducible] def ValueTy.Carrier (t : ValueTy) : Type := t.ty.Carrier

namespace Scalar

def valueTy : Scalar → ValueTy
  | int32 _ => .int32
  | int64 _ => .int64
  | bool _ => .bool
  | float32 _ => .float32
  | float64 _ => .float64
  | decimal _ => .decimal
  | string _ => .string

def ty (v : Scalar) : Ty := v.valueTy.ty

/-- The plain value of a scalar of type `t`. -/
def carried? : (t : Ty) → Scalar → Option t.Carrier
  | .int32, int32 n => some n
  | .int64, int64 n => some n
  | .bool, bool b => some b
  | .float32, float32 x => some x
  | .float64, float64 x => some x
  | .decimal, decimal d => some d
  | .string, string s => some s
  | _, _ => none

theorem carried?_wrap (t : Ty) (v : t.Carrier) : carried? t (t.wrap v) = some v := by
  cases t with
  | null => exact nomatch v
  | _ => rfl

theorem carried?_eq_some_iff {t : Ty} {s : Scalar} {v : t.Carrier} :
    carried? t s = some v ↔ s = t.wrap v := by
  constructor
  · intro h
    cases t <;> cases s <;> simp [carried?] at h <;> subst h <;> rfl
  · rintro rfl
    exact carried?_wrap t v

end Scalar

theorem Ty.ty_wrap (t : Ty) (v : t.Carrier) : (t.wrap v).ty = t := by
  cases t with
  | null => exact nomatch v
  | _ => rfl

namespace Operand

/-- The type of an operand; null is of the null type. -/
def ty : Operand → Ty
  | none => .null
  | some v => v.ty

end Operand

end RowCode
