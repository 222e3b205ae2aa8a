/-!
# Types of operands

Eight type tags. A tag is written as a code (its place in the list `Ty.all`), which sits in the
low half of an instruction byte, and has a name that error messages and listings use. `null` is
the type of the operand that has no value; the other seven are value types.

Operators are defined on families of types (numbers, integers, values). Each family is a type of
its own, so that an operator on an unsuitable type cannot be written down.
-/

namespace RowCode

/-- The type tag of an operand. -/
inductive Ty where
  | null
  | int32
  | int64
  | bool
  | float32
  | float64
  | decimal
  | string
deriving Repr, DecidableEq

namespace Ty

/-- Every tag, in the order of the codes. -/
def all : List Ty := [null, int32, int64, bool, float32, float64, decimal, string]

def code : Ty → Nat
  | null => 0
  | int32 => 1
  | int64 => 2
  | bool => 3
  | float32 => 4
  | float64 => 5
  | decimal => 6
  | string => 7

def ofCode? (n : Nat) : Option Ty := all[n]?

def name : Ty → String
  | null => "NULL"
  | int32 => "INT32"
  | int64 => "INT64"
  | bool => "BOOL"
  | float32 => "FLOAT"
  | float64 => "DOUBLE"
  | decimal => "DECIMAL"
  | string => "STRING"

theorem ofCode?_code (t : Ty) : ofCode? t.code = some t := by
  cases t <;> rfl

theorem code_of_ofCode? {n : Nat} {t : Ty} (h : ofCode? n = some t) : t.code = n := by
  match n, h with
  | 0, h | 1, h | 2, h | 3, h | 4, h | 5, h | 6, h | 7, h => cases h; rfl
  | _ + 8, h => simp [ofCode?, all] at h

theorem code_lt (t : Ty) : t.code < 8 := by
  cases t <;> decide

theorem code_injective {t t' : Ty} (h : t.code = t'.code) : t = t' := by
  have hcode := ofCode?_code t
  rw [h, ofCode?_code] at hcode
  exact (Option.some.inj hcode).symm

end Ty

/-- The types that `+ - * /` and the sign functions are defined on. -/
inductive NumTy where
  | int32
  | int64
  | float32
  | float64
  | decimal
deriving Repr, DecidableEq

namespace NumTy

@[reducible] def ty : NumTy → Ty
  | int32 => .int32
  | int64 => .int64
  | float32 => .float32
  | float64 => .float64
  | decimal => .decimal

def ofTy? : Ty → Option NumTy
  | .int32 => some int32
  | .int64 => some int64
  | .float32 => some float32
  | .float64 => some float64
  | .decimal => some decimal
  | _ => none

theorem ofTy?_ty (t : NumTy) : ofTy? t.ty = some t := by
  cases t <;> rfl

end NumTy

/-- The fixed-width integer types, on which a remainder is defined. -/
inductive IntTy where
  | int32
  | int64
deriving Repr, DecidableEq

namespace IntTy

@[reducible] def ty : IntTy → Ty
  | int32 => .int32
  | int64 => .int64

def ofTy? : Ty → Option IntTy
  | .int32 => some int32
  | .int64 => some int64
  | _ => none

theorem ofTy?_ty (t : IntTy) : ofTy? t.ty = some t := by
  cases t <;> rfl

end IntTy

/-- The types that have values: all but `Ty.null`. -/
inductive ValueTy where
  | int32
  | int64
  | bool
  | float32
  | float64
  | decimal
  | string
deriving Repr, DecidableEq

namespace ValueTy

@[reducible] def ty : ValueTy → Ty
  | int32 => .int32
  | int64 => .int64
  | bool => .bool
  | float32 => .float32
  | float64 => .float64
  | decimal => .decimal
  | string => .string

def ofTy? : Ty → Option ValueTy
  | .null => none
  | .int32 => some int32
  | .int64 => some int64
  | .bool => some bool
  | .float32 => some float32
  | .float64 => some float64
  | .decimal => some decimal
  | .string => some string

theorem ofTy?_ty (t : ValueTy) : ofTy? t.ty = some t := by
  cases t <;> rfl

end ValueTy

end RowCode
