import RowCode.Operand.Order

/-!
# Comparison by type

The six relations and the two extremes. `==` and `<>` rest on an equality for each type, the
others on a partial order, in which only NaNs are unordered: every relation with a NaN is false,
except for `<>`, which is true. The order of rows is another matter; it places NaNs above all else.

The equality is that of the order for all types but the decimals. Those have an equality of their
own, so that two decimals may be neither `==` nor `<` nor `>`.
-/

namespace RowCode

/-- The order that operators see. -/
def ValueTy.partialCompare : (t : ValueTy) → t.Carrier → t.Carrier → Option Ordering
  | .int32, m, n => some (compare m n)
  | .int64, m, n => some (compare m n)
  | .bool, a, b => some (compare a b)
  | .float32, x, y => x.partialCompare y
  | .float64, x, y => x.partialCompare y
  | .decimal, a, b => some (a.compare b)
  | .string, s, t => some (compareText s t)

/-- The equality that operators see. -/
def ValueTy.equal (t : ValueTy) (v w : t.Carrier) : Bool :=
  match t, v, w with
  | .decimal, a, b => a.same b
  | t, v, w => t.partialCompare v w == some .eq

inductive Relation where
  | eq
  | ge
  | gt
  | le
  | lt
  | ne
deriving Repr, DecidableEq

namespace Relation

def symbol : Relation → String
  | eq => "=="
  | ge => ">="
  | gt => ">"
  | le => "<="
  | lt => "<"
  | ne => "<>"

/-- Whether the relation holds of two values. -/
def holds (r : Relation) (t : ValueTy) (v w : t.Carrier) : Bool :=
  match r with
  | eq => t.equal v w
  | ge => (t.partialCompare v w).any Ordering.isGE
  | gt => (t.partialCompare v w).any Ordering.isGT
  | le => (t.partialCompare v w).any Ordering.isLE
  | lt => (t.partialCompare v w).any Ordering.isLT
  | ne => !t.equal v w

end Relation

inductive Extreme where
  | min
  | max
deriving Repr, DecidableEq

namespace Extreme

def name : Extreme → String
  | min => "min"
  | max => "max"

/-- Takes the right value only if it is strictly beyond the left one. -/
def pick (e : Extreme) (t : ValueTy) (left right : t.Carrier) : t.Carrier :=
  let beyond := match e with
    | min => Relation.lt
    | max => Relation.gt
  if beyond.holds t right left then right else left

end Extreme

end RowCode
