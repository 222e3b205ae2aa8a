import RowCode.Operand.Order

/-!
# Maps from keys to slots

A grouped aggregation finds the slot of a key through a map, which looks keys up by their equality.
`KeyMap` has the operations that it calls. How a map arranges what it holds is its own affair, and
may depend on everything that was ever done with it.

`LawfulKeyMap` says how far a map can be relied on. An equal key is sure to be found only if it is
of the same value, because a map may look for a key where its value leads. A key that was never
stored, but is equal to one that was, may be found or not.
-/

namespace RowCode

/-- The operations of a map from keys to slots. -/
class KeyMap where
  /-- A map with what it holds. -/
  Table : Type
  empty : Table
  get? : Table → Row → Option Nat
  insert : Row → Nat → Table → Table
  /-- Takes out one key that is equal, if there is one. -/
  remove : Table → Row → Table
  /-- The keys with their slots, in an order of the map's own. -/
  entries : Table → List (Row × Nat)

namespace KeyMap

variable [KeyMap]

/-- The tables that the operations make. -/
inductive Made : Table → Prop where
  | empty : Made empty
  | insert {table : Table} (key : Row) (slot : Nat) (h : Made table) : Made (insert key slot table)
  | remove {table : Table} (key : Row) (h : Made table) : Made (remove table key)

end KeyMap

open KeyMap in
/-- What holds of all tables that a map makes. -/
class LawfulKeyMap [KeyMap] : Prop where
  entries_empty : entries empty = []
  /-- A slot that is found is stored under an equal key. -/
  sound {table : Table} {key : Row} {slot : Nat} (h : Made table)
    (hget : get? table key = some slot) :
    ∃ stored, (stored, slot) ∈ entries table ∧ stored.same key = true
  /-- Something is found if an equal key of the same value is stored. -/
  complete {table : Table} {stored key : Row} {slot : Nat} (h : Made table)
    (hstored : (stored, slot) ∈ entries table) (hsame : stored.same key = true)
    (hvalue : stored.compare key = .eq) : (get? table key).isSome
  /-- A key that is not equal to any other is stored beside the others. -/
  insert {table : Table} {key : Row} (slot : Nat) (h : Made table)
    (hnew : ∀ e ∈ entries table, e.1.same key = false) :
    (entries (insert key slot table)).Perm ((key, slot) :: entries table)
  /-- A key that is not equal to any other is taken out alone. -/
  remove {table : Table} {key : Row} {slot : Nat} {rest : List (Row × Nat)} (h : Made table)
    (hstored : (entries table).Perm ((key, slot) :: rest))
    (hrest : ∀ e ∈ rest, e.1.same key = false) : (entries (remove table key)).Perm rest

end RowCode
