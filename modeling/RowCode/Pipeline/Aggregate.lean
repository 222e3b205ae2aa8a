import RowCode.Operator.Basic

/-!
# Aggregates

An aggregate folds a column of the rows it is fed into one operand, its accumulator. Counts start
at zero; sums and extremes start at null and take the first value that is not null, except for the
sum that starts at zero so as never to be null. Nulls in the column are passed over.
-/

namespace RowCode

inductive Aggregate where
  | countAll
  /-- Counts the rows whose column is not null. -/
  | count (index : Nat) (t : Ty)
  | sum (index : Nat) (t : NumTy)
  /-- A sum from zero. -/
  | sum0 (index : Nat) (t : NumTy)
  | extreme (e : Extreme) (index : Nat) (t : ValueTy)
deriving Repr, DecidableEq

namespace Aggregate

/-- The accumulator before any row. -/
def initial : Aggregate → Operand
  | countAll => some (.int64 0)
  | count _ _ => some (.int64 0)
  | sum _ _ => none
  | sum0 _ t => some (t.ty.wrap t.arith.zero)
  | extreme _ _ _ => none

def column (row : Row) (index : Nat) : Except Fault Operand :=
  match row[index]? with
  | some v => .ok v
  | none => .error (.violation (.aggregateColumn index row.length))

/-- One more row. -/
def increment (acc : Operand) : Except Fault Operand := do
  match ← acc.unwrap .int64 with
  | some n => .ok (some (.int64 (n + 1)))
  | none => .ok (some (.int64 1))

/-- Folds a column by a function of two values. A null accumulator takes the value. -/
def fold (t : Ty) (f : t.Carrier → t.Carrier → Except Fault t.Carrier) (index : Nat)
    (acc : Operand) (row : Row) : Except Fault Operand := do
  match ← (← column row index).unwrap t with
  | none => .ok acc
  | some v =>
    match ← acc.unwrap t with
    | none => .ok (some (t.wrap v))
    | some acc =>
      let v ← f acc v
      .ok (some (t.wrap v))

/-- The accumulator after one more row. -/
def add (a : Aggregate) (acc : Operand) (row : Row) : Except Fault Operand :=
  match a with
  | countAll => increment acc
  | count index _ => do
    match ← column row index with
    | none => .ok acc
    | some _ => increment acc
  | sum index t => fold t.ty t.arith.add index acc row
  | sum0 index t => fold t.ty t.arith.add index acc row
  | extreme e index t => fold t.ty (fun a v => .ok (e.pick t a v)) index acc row

def listColumn (name : String) (index : Nat) (t : Ty) : String :=
  name ++ "($" ++ toString index ++ "<" ++ t.name ++ ">)"

def listing : Aggregate → String
  | countAll => "count(*)"
  | count index t => listColumn "count" index t
  | sum index t => listColumn "sum" index t.ty
  | sum0 index t => listColumn "sum0" index t.ty
  | extreme e index t => listColumn e.name index t.ty

/-- The accumulators of several aggregates before any row. -/
def initials (aggs : List Aggregate) : Row :=
  aggs.map initial

/-- The accumulators after one more row; if one aggregate fails, none advances. -/
def addAll (aggs : List Aggregate) (accs : Row) (row : Row) : Except Fault Row :=
  (aggs.zip accs).mapM fun (a, acc) => a.add acc row

def listings (aggs : List Aggregate) : String :=
  ", ".intercalate (aggs.map listing)

end Aggregate

end RowCode
