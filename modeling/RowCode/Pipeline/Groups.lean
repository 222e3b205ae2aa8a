import RowCode.Pipeline.Aggregate
import RowCode.Pipeline.KeyMap

/-!
# Groups

What a grouped aggregation keeps. The groups stand in slots, the oldest first, and an index leads
from a key to the slot of its group. A row finds its group through the index; a group leaves from
the end of the slots and takes its key out of the index.

Nothing here ties the index to the slots. As long as keys that are equal are of one value, the
operations keep the two together, and the slot that the index gives is always one that there is.
-/

namespace RowCode

/-- One group of a grouped aggregation: its key, as it stood in the first row of the group, and
its accumulators. -/
structure Group where
  key : Row
  accs : Row
deriving Repr, DecidableEq

/-- The row that a group gives out. -/
def Group.row (g : Group) : Row :=
  g.key ++ g.accs

variable [KeyMap]

/-- Groups in slots, with the index of their keys. -/
structure Groups where
  index : KeyMap.Table
  slots : List Group

namespace Groups

def empty : Groups := ⟨KeyMap.empty, []⟩

/-- Folds a row into the group in a slot. -/
def update (aggs : List Aggregate) (slot : Nat) (row : Row) (groups : Groups) :
    Except Fault Groups :=
  match groups.slots[slot]? with
  | none => .error (.violation (.slotRange slot groups.slots.length))
  | some g => do
    let accs ← Aggregate.addAll aggs g.accs row
    .ok { groups with slots := groups.slots.set slot ⟨g.key, accs⟩ }

/-- Folds a row into a new group, in a slot behind all others. -/
def push (aggs : List Aggregate) (key row : Row) (groups : Groups) : Except Fault Groups := do
  let accs ← Aggregate.addAll aggs (Aggregate.initials aggs) row
  .ok ⟨KeyMap.insert key groups.slots.length groups.index, groups.slots ++ [⟨key, accs⟩]⟩

/-- The groups after one more row with a key. The group that the index gives takes the row, or a
new group if it gives none; if an aggregate fails, nothing is stored. -/
def fold (aggs : List Aggregate) (key row : Row) (groups : Groups) : Except Fault Groups :=
  match KeyMap.get? groups.index key with
  | some slot => groups.update aggs slot row
  | none => groups.push aggs key row

/-- The newest group, and the groups without it. -/
def pop (groups : Groups) : Option (Group × Groups) :=
  match groups.slots.getLast? with
  | none => none
  | some g => some (g, ⟨KeyMap.remove groups.index g.key, groups.slots.dropLast⟩)

end Groups

end RowCode
