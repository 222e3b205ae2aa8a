import RowCode.Decimal.Equality
import RowCode.Operand.Basic

/-!
# The order of operands

Rows are sorted by the order of their operands. Null comes first, then the types in the order of
their codes, and within a type the values: decimals by value whatever their scale, floats with NaN
equal to itself and above everything, strings by the bytes of their UTF-8 form. Rows compare column
by column, a shorter row before its extensions.

Equality is defined on its own and not through the order. The two agree on all types but the
decimals, whose equality has its exceptions. A row is equal to itself, NaN and all.
-/

namespace RowCode

/-- Strings by the bytes of their UTF-8 form. -/
def compareText (s t : String) : Ordering :=
  compare s.toUTF8.data.toList t.toUTF8.data.toList

namespace Scalar

def compare (v w : Scalar) : Ordering :=
  match v, w with
  | int32 m, int32 n => Ord.compare m n
  | int64 m, int64 n => Ord.compare m n
  | bool a, bool b => Ord.compare a b
  | float32 x, float32 y => x.totalCompare y
  | float64 x, float64 y => x.totalCompare y
  | decimal a, decimal b => a.compare b
  | string s, string t => compareText s t
  | v, w => Ord.compare v.ty.code w.ty.code

/-- Equal in type, and equal as values of the type. -/
def same (v w : Scalar) : Bool :=
  match v, w with
  | int32 m, int32 n => m == n
  | int64 m, int64 n => m == n
  | bool a, bool b => a == b
  | float32 x, float32 y => x.same y
  | float64 x, float64 y => x.same y
  | decimal a, decimal b => a.same b
  | string s, string t => s == t
  | _, _ => false

theorem compare_self (v : Scalar) : v.compare v = .eq := by
  cases v with
  | float32 x => exact x.totalCompare_self
  | float64 x => exact x.totalCompare_self
  | decimal d => exact d.compare_self
  | _ => exact Std.compare_self

theorem same_self (v : Scalar) : v.same v = true := by
  cases v with
  | float32 x => exact x.same_self
  | float64 x => exact x.same_self
  | decimal d => exact d.same_self
  | _ => exact beq_self_eq_true _

end Scalar

namespace Operand

def compare : Operand → Operand → Ordering
  | none, none => .eq
  | none, some _ => .lt
  | some _, none => .gt
  | some v, some w => v.compare w

/-- Equal as values; null is equal to null. -/
def same : Operand → Operand → Bool
  | none, none => true
  | some v, some w => v.same w
  | _, _ => false

theorem compare_self : ∀ v : Operand, compare v v = .eq
  | none => rfl
  | some v => v.compare_self

theorem same_self : ∀ v : Operand, same v v = true
  | none => rfl
  | some v => v.same_self

end Operand

namespace Row

/-- Column by column; a proper start of a row comes before it. -/
def compare : Row → Row → Ordering
  | [], [] => .eq
  | [], _ :: _ => .lt
  | _ :: _, [] => .gt
  | a :: as, b :: bs => (Operand.compare a b).then (compare as bs)

/-- Equal in every column. -/
def same : Row → Row → Bool
  | [], [] => true
  | a :: as, b :: bs => Operand.same a b && same as bs
  | _, _ => false

theorem compare_self : ∀ a : Row, compare a a = .eq
  | [] => rfl
  | v :: a => by rw [compare, Operand.compare_self, compare_self a]; rfl

theorem same_self : ∀ a : Row, same a a = true
  | [] => rfl
  | v :: a => by rw [same, Operand.same_self, same_self a]; rfl

/-- The rows in order; rows that compare equal stay as they were. -/
def sort (rows : List Row) : List Row :=
  rows.mergeSort fun a b => (compare a b).isLE

end Row

end RowCode
