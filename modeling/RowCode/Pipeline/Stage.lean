import RowCode.Listing
import RowCode.Machine
import RowCode.Pipeline.Groups

/-!
# Stages of a pipeline

A stage takes rows one at a time. Filters and projections answer at once; aggregations keep what
they are given and hand it out when they are asked. What a stage is (`Stage`) is apart from what
it keeps (`Stage.Memory`), so that a stage with its memory emptied is the stage as it was decoded.

A row that a stage fails on leaves no trace in its memory.
-/

namespace RowCode

/-- What a stage gives out: a row, nothing, or a fault. -/
abbrev Answer := Except Fault (Option Row)

inductive Stage where
  /-- Passes the rows on which the program gives true. -/
  | filter (p : Program)
  /-- Turns each row into the results of the program. -/
  | project (p : Program)
  /-- Folds all rows into one. -/
  | aggregate (aggs : List Aggregate)
  /-- Folds the rows of each group into one. -/
  | groupBy (columns : List Nat) (aggs : List Aggregate)
deriving Repr, DecidableEq

namespace Stage

variable [KeyMap]

/-- What a stage keeps between calls. -/
@[reducible] def Memory : Stage → Type
  | filter _ => Unit
  | project _ => Unit
  | aggregate _ => Option Row
  | groupBy _ _ => Groups

/-- Nothing kept. -/
def empty : (s : Stage) → s.Memory
  | filter _ => ()
  | project _ => ()
  | aggregate _ => none
  | groupBy _ _ => .empty

/-- How many rows a stage can still give out. -/
def pending : (s : Stage) → s.Memory → Nat
  | filter _, _ => 0
  | project _, _ => 0
  | aggregate _, cache => if cache.isSome then 1 else 0
  | groupBy _ _, groups => groups.slots.length

/-- The values of the grouping columns. -/
def groupKey (columns : List Nat) (row : Row) : Except Fault Row :=
  columns.mapM fun index =>
    match row[index]? with
    | some v => .ok v
    | none => .error (.violation (.groupColumn index row.length))

/-- What a filter does with the result of its program. -/
def verdict (row : Row) : Operand → Answer
  | some (.bool true) => .ok (some row)
  | some (.bool false) => .ok none
  | none => .ok none
  | got => .error (.violation (.predicateType got))

/-- Hands a row to a stage. -/
def put : (s : Stage) → Row → s.Memory → Except Fault (Option Row × s.Memory)
  | filter p, row, m => do
    let v ← p.eval row
    let out ← verdict row v
    .ok (out, m)
  | project p, row, m => do
    let out ← p.evalAll row
    .ok (some out, m)
  | aggregate aggs, row, cache => do
    let accs ← Aggregate.addAll aggs (cache.getD (Aggregate.initials aggs)) row
    .ok (none, some accs)
  | groupBy columns aggs, row, groups => do
    let key ← groupKey columns row
    let groups ← groups.fold aggs key row
    .ok (none, groups)

/-- Takes a row that the stage has kept, of several groups that of the newest. -/
def get : (s : Stage) → s.Memory → Option Row × s.Memory
  | filter _, m => (none, m)
  | project _, m => (none, m)
  | aggregate _, cache => (cache, none)
  | groupBy _ _, groups =>
    match groups.pop with
    | none => (none, groups)
    | some (g, groups) => (some g.row, groups)

def listing : Stage → String
  | filter p => "filter(" ++ p.listing ++ ")"
  | project p => "project(" ++ p.listing ++ ")"
  | aggregate aggs => "aggregate(" ++ Aggregate.listings aggs ++ ")"
  | groupBy columns aggs =>
    "group_by([" ++ ", ".intercalate (columns.map toString) ++ "], " ++
      Aggregate.listings aggs ++ ")"

end Stage

end RowCode
