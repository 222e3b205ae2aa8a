import RowCode.Proofs.Pipeline.Clear
import RowCode.Proofs.Pipeline.Drain

/-!
# Ledgers of groups

A grouped aggregation told by its history. Where the stage keeps a key and
accumulators for each group, a ledger keeps the key and the rows that were
folded in, and works out the accumulators by handing those rows to an
aggregation of their own. No row of one entry has a part in what another
entry gives out, so the ledger says by its form that groups do not influence
each other.

`Ledger.Step` says what a call may do to a ledger. Which entry takes a row is
left open as far as equality leaves it open: a row goes to an entry whose key is
equal to its own, and opens a new one only if there is none. The slots of the
stage are the ledger with its rows forgotten (`Entry.group`), and every call of
the stage is a step of the ledger (`Ledger.step_put`, `Ledger.step_get`).
-/

namespace RowCode

/-! ## Ledgers -/

/-- A group with its history: the key as it stood in the first row, and the
rows that were folded in, in order. -/
structure Entry where
  key : Row
  rows : List Row
deriving Repr, DecidableEq

/-- The entries of the live groups, the oldest first. -/
abbrev Ledger := List Entry

namespace Entry

/-- Whether a key falls into the group. -/
def holds (e : Entry) (key : Row) : Bool :=
  e.key.same key

/-- The entry with one more row. -/
def note (e : Entry) (row : Row) : Entry :=
  { e with rows := e.rows ++ [row] }

/-- The group as a stage keeps it. -/
def group (aggs : List Aggregate) (e : Entry) : Group :=
  ⟨e.key, (Aggregate.total aggs e.rows).getD (Aggregate.initials aggs)⟩

end Entry

namespace Ledger

/-- The grouping columns of a row that has them all. -/
def keyOf (columns : List Nat) (row : Row) : Row :=
  columns.map fun i => (row[i]?).getD none

/-- Where a row is noted: in an entry that holds its key, or in a new one behind
all others if none does. With the ledger goes what was noted there before. -/
inductive Notes (key row : Row) : Ledger → List Row → Ledger → Prop where
  | joins {older newer : Ledger} {e : Entry} (hkey : e.holds key = true) :
    Notes key row (older ++ e :: newer) e.rows (older ++ e.note row :: newer)
  | opens {book : Ledger} (hkey : ∀ e ∈ book, e.holds key = false) :
    Notes key row book [] (book ++ [⟨key, [row]⟩])

section

variable [KeyMap]

/-- What an aggregation of all rows keeps when it is given just these. -/
def alone (aggs : List Aggregate) (rows : List Row) : Option Row :=
  ((Plan.stage (.aggregate aggs)).feed rows none).2

/-- What a call may do, with the answer and the entries that it closes. A row
fails if one of its grouping columns is missing, or if an aggregation of just
the rows that were noted in its place fails on it. -/
inductive Step (columns : List Nat) (aggs : List Aggregate) :
    Ledger → Call → Answer → List Entry → Ledger → Prop where
  | keyless {book : Ledger} {row : Row} {i : Nat}
      (hcolumn : columns.find? (fun i => row.length ≤ i) = some i) :
    Step columns aggs book (.put row) (.error (.violation (.groupColumn i row.length))) [] book
  | noted {book book' : Ledger} {row : Row} {history : List Row}
      (hcolumns : ∀ i ∈ columns, i < row.length)
      (hnotes : Notes (keyOf columns row) row book history book')
      (hput : ((Plan.stage (.aggregate aggs)).put row (alone aggs history)).1 = .ok none) :
    Step columns aggs book (.put row) (.ok none) [] book'
  | refused {book book' : Ledger} {row : Row} {history : List Row} {e : Fault}
      (hcolumns : ∀ i ∈ columns, i < row.length)
      (hnotes : Notes (keyOf columns row) row book history book')
      (hput : ((Plan.stage (.aggregate aggs)).put row (alone aggs history)).1 = .error e) :
    Step columns aggs book (.put row) (.error e) [] book
  | closes {older : Ledger} {e : Entry} {accs : Row}
      (hget : ((Plan.stage (.aggregate aggs)).get (alone aggs e.rows)).1 = .ok (some accs)) :
    Step columns aggs (older ++ [e]) .get (.ok (some (e.key ++ accs))) [e] older
  | dry : Step columns aggs [] .get (.ok none) [] []

/-- Calls made one after the other, with their answers and the entries that they
close in turn. -/
inductive Runs (columns : List Nat) (aggs : List Aggregate) :
    Ledger → List Call → List Answer → List Entry → Ledger → Prop where
  | nil {book : Ledger} : Runs columns aggs book [] [] [] book
  | cons {book book' book'' : Ledger} {c : Call} {calls : List Call} {answer : Answer}
      {answers : List Answer} {closed later : List Entry}
      (hstep : Step columns aggs book c answer closed book')
      (hruns : Runs columns aggs book' calls answers later book'') :
    Runs columns aggs book (c :: calls) (answer :: answers) (closed ++ later) book''

theorem alone_eq_total (aggs : List Aggregate) (rows : List Row) :
    alone aggs rows = Aggregate.total aggs rows := by
  rw [alone, Plan.feed_aggregate]
  rfl

theorem put_alone_eq_ok {aggs : List Aggregate} {rows : List Row} {row accs : Row}
    (h : Aggregate.addAll aggs ((Aggregate.total aggs rows).getD (Aggregate.initials aggs)) row =
      .ok accs) :
    ((Plan.stage (.aggregate aggs)).put row (alone aggs rows)).1 = .ok none := by
  rw [alone_eq_total, Plan.put_aggregate, h]

theorem put_alone_eq_error {aggs : List Aggregate} {rows : List Row} {row : Row} {e : Fault}
    (h : Aggregate.addAll aggs ((Aggregate.total aggs rows).getD (Aggregate.initials aggs)) row =
      .error e) :
    ((Plan.stage (.aggregate aggs)).put row (alone aggs rows)).1 = .error e := by
  rw [alone_eq_total, Plan.put_aggregate, h]

end

/-! ## Keys -/

/-- The key of a row consists of the grouping columns, and the first of them
that is missing is to blame if there is no key. -/
theorem groupKey_eq (row : Row) : ∀ columns : List Nat,
    Stage.groupKey columns row =
      match columns.find? fun i => row.length ≤ i with
      | some i => .error (.violation (.groupColumn i row.length))
      | none => .ok (columns.map fun i => (row[i]?).getD none)
  | [] => rfl
  | i :: columns => by
      have ih := groupKey_eq row columns
      rw [Stage.groupKey] at ih ⊢
      rw [List.mapM_cons, ih, List.find?_cons]
      by_cases hi : row.length ≤ i
      · rw [List.getElem?_eq_none hi]
        simp [hi, bind, Except.bind]
      · rw [List.getElem?_eq_getElem (Nat.lt_of_not_le hi)]
        simp only [hi, decide_false]
        cases columns.find? fun i => row.length ≤ i with
        | none =>
            simp [bind, Except.bind, pure, Except.pure,
              List.getElem?_eq_getElem (Nat.lt_of_not_le hi)]
        | some j => rfl

theorem groupKey_of_columns {columns : List Nat} {row : Row}
    (h : ∀ i ∈ columns, i < row.length) :
    Stage.groupKey columns row = .ok (keyOf columns row) := by
  have hnone : columns.find? (fun i => row.length ≤ i) = none := by
    rw [List.find?_eq_none]
    intro i hi
    have := h i hi
    simpa using this
  rw [groupKey_eq, hnone]
  rfl

theorem of_groupKey_eq_ok {columns : List Nat} {row key : Row}
    (h : Stage.groupKey columns row = .ok key) :
    (∀ i ∈ columns, i < row.length) ∧ key = keyOf columns row := by
  rw [groupKey_eq] at h
  cases hfind : columns.find? (fun i => row.length ≤ i) with
  | some i => rw [hfind] at h; cases h
  | none =>
      rw [hfind] at h
      cases h
      rw [List.find?_eq_none] at hfind
      exact ⟨fun i hi => by simpa using hfind i hi, rfl⟩

theorem of_groupKey_eq_error {columns : List Nat} {row : Row} {e : Fault}
    (h : Stage.groupKey columns row = .error e) :
    ∃ i, columns.find? (fun i => row.length ≤ i) = some i ∧
      e = .violation (.groupColumn i row.length) := by
  rw [groupKey_eq] at h
  cases hfind : columns.find? (fun i => row.length ≤ i) with
  | some i => rw [hfind] at h; cases h; exact ⟨i, rfl, rfl⟩
  | none => rw [hfind] at h; cases h

/-! ## The stage as a ledger -/

theorem group_singleton {aggs : List Aggregate} {row accs : Row} (key : Row)
    (h : Aggregate.addAll aggs (Aggregate.initials aggs) row = .ok accs) :
    Entry.group aggs ⟨key, [row]⟩ = ⟨key, accs⟩ := by
  have htotal : Aggregate.total aggs [row] = some accs := by
    simp [Aggregate.total, Aggregate.advance, h]
  rw [Entry.group, htotal, Option.getD_some]

theorem group_note {aggs : List Aggregate} {e : Entry} {row accs : Row}
    (h : Aggregate.addAll aggs (e.group aggs).accs row = .ok accs) :
    (e.note row).group aggs = ⟨e.key, accs⟩ := by
  rw [Entry.group] at h
  rw [Entry.group, Entry.note, Aggregate.total_concat, Aggregate.advance, h, Option.getD_some]

variable [KeyMap] {columns : List Nat} {aggs : List Aggregate} {book : Ledger} {groups : Groups}

/-- An entry stands where the index leads to. -/
theorem exists_entry (hslots : groups.slots = book.map (Entry.group aggs)) {slot : Nat} {g : Group}
    (hslot : groups.slots[slot]? = some g) :
    ∃ older e newer, book = older ++ e :: newer ∧ older.length = slot ∧ e.group aggs = g := by
  rw [hslots, List.getElem?_map, Option.map_eq_some_iff] at hslot
  obtain ⟨e, he, rfl⟩ := hslot
  obtain ⟨hlt, rfl⟩ := List.getElem?_eq_some_iff.mp he
  refine ⟨book.take slot, book[slot], book.drop (slot + 1), ?_, ?_, rfl⟩
  · rw [List.getElem_cons_drop, List.take_append_drop]
  · rw [List.length_take, Nat.min_eq_left hlt.le]

/-- A row that the index leads to an entry is noted there. -/
theorem step_join (hslots : groups.slots = book.map (Entry.group aggs)) {row : Row} {slot : Nat}
    {g : Group} (hcolumns : ∀ i ∈ columns, i < row.length)
    (hget : KeyMap.get? groups.index (keyOf columns row) = some slot)
    (hslot : groups.slots[slot]? = some g) (hsame : g.key.same (keyOf columns row) = true) :
    let result := (Plan.stage (.groupBy columns aggs)).put row groups
    ∃ book', Step columns aggs book (.put row) result.1 [] book' ∧
      result.2.slots = book'.map (Entry.group aggs) := by
  intro result
  have hput : result = _ := Groups.put_groupBy columns aggs groups row
  rw [hput, groupKey_of_columns hcolumns]
  dsimp only
  obtain ⟨older, e, newer, rfl, rfl, rfl⟩ := exists_entry hslots hslot
  have hnotes : Notes (keyOf columns row) row (older ++ e :: newer) e.rows _ := .joins hsame
  rw [Groups.fold_of_some hget hslot]
  cases hadd : Aggregate.addAll aggs (e.group aggs).accs row with
  | error fault => exact ⟨_, .refused hcolumns hnotes (put_alone_eq_error hadd), hslots⟩
  | ok accs =>
      refine ⟨_, .noted hcolumns hnotes (put_alone_eq_ok hadd), ?_⟩
      change groups.slots.set older.length _ = _
      rw [hslots, List.map_append, List.map_append, List.map_cons, List.map_cons,
        group_note hadd, List.set_append_right _ _ (by rw [List.length_map]),
        List.length_map, Nat.sub_self]
      rfl

/-- A row that the index leads nowhere opens an entry. -/
theorem step_open (hslots : groups.slots = book.map (Entry.group aggs)) {row : Row}
    (hcolumns : ∀ i ∈ columns, i < row.length)
    (hget : KeyMap.get? groups.index (keyOf columns row) = none)
    (hnone : ∀ stored ∈ groups.keys, stored.same (keyOf columns row) = false) :
    let result := (Plan.stage (.groupBy columns aggs)).put row groups
    ∃ book', Step columns aggs book (.put row) result.1 [] book' ∧
      result.2.slots = book'.map (Entry.group aggs) := by
  intro result
  have hput : result = _ := Groups.put_groupBy columns aggs groups row
  rw [hput, groupKey_of_columns hcolumns]
  dsimp only
  have hnotes : Notes (keyOf columns row) row book [] _ := .opens fun e he => by
    refine hnone e.key ?_
    rw [Groups.keys, hslots, List.map_map]
    exact List.mem_map_of_mem he
  rw [Groups.fold_of_none hget]
  cases hadd : Aggregate.addAll aggs (Aggregate.initials aggs) row with
  | error fault => exact ⟨_, .refused hcolumns hnotes (put_alone_eq_error hadd), hslots⟩
  | ok accs =>
      refine ⟨_, .noted hcolumns hnotes (put_alone_eq_ok hadd), ?_⟩
      change groups.slots ++ [_] = _
      rw [hslots, List.map_append, List.map_singleton, group_singleton _ hadd]

/-- To take a row out of the stage is a step of the ledger. -/
theorem step_get (hslots : groups.slots = book.map (Entry.group aggs))
    (hfolded : ∀ e ∈ book, (Aggregate.total aggs e.rows).isSome) :
    let result := (Plan.stage (.groupBy columns aggs)).get groups
    ∃ closed book', Step columns aggs book .get result.1 closed book' ∧
      result.2.slots = book'.map (Entry.group aggs) := by
  intro result
  have hget : result = _ := Groups.get_groupBy columns aggs groups
  rw [hget]
  cases hpop : groups.pop with
  | none =>
      have hnil := Groups.pop_eq_none_iff.mp hpop
      rw [hnil] at hslots
      obtain rfl := List.map_eq_nil_iff.mp hslots.symm
      exact ⟨[], [], .dry, hnil⟩
  | some popped =>
      obtain ⟨g, groups'⟩ := popped
      obtain ⟨hconcat, -⟩ := Groups.pop_eq_some hpop
      obtain ⟨older, newest, rfl, holder, hnewest⟩ :=
        List.map_eq_append_iff.mp (hslots.symm.trans hconcat)
      obtain ⟨e, rfl, rfl⟩ := List.map_eq_singleton_iff.mp hnewest
      obtain ⟨accs, haccs⟩ := Option.isSome_iff_exists.mp (hfolded e (by simp))
      have hrow : (e.group aggs).row = e.key ++ accs := by
        rw [Group.row, Entry.group, haccs, Option.getD_some]
      refine ⟨[e], older, ?_, holder.symm⟩
      change Step columns aggs (older ++ [e]) .get (.ok (some (e.group aggs).row)) [e] older
      rw [hrow]
      refine .closes ?_
      rw [alone_eq_total, haccs]
      rfl

variable [LawfulKeyMap]

/-- To put a row into the stage is a step of the ledger. -/
theorem step_put (hindexed : groups.Indexed) (hslots : groups.slots = book.map (Entry.group aggs))
    (row : Row) (htrust : ∀ key ∈ Call.keys columns [.put row], groups.Trusts key) :
    let result := (Plan.stage (.groupBy columns aggs)).put row groups
    ∃ book', Step columns aggs book (.put row) result.1 [] book' ∧
      result.2.slots = book'.map (Entry.group aggs) := by
  cases hkey : Stage.groupKey columns row with
  | error e =>
      obtain ⟨i, hfind, rfl⟩ := of_groupKey_eq_error hkey
      rw [Groups.put_groupBy, hkey]
      exact ⟨book, .keyless hfind, hslots⟩
  | ok key =>
      have htrust := htrust key (Call.mem_keys_put hkey)
      obtain ⟨hcolumns, rfl⟩ := of_groupKey_eq_ok hkey
      cases hget : KeyMap.get? groups.index (keyOf columns row) with
      | some slot =>
          obtain ⟨g, hslot, hsame⟩ := hindexed.of_get?_eq_some hget
          exact step_join hslots hcolumns hget hslot hsame
      | none =>
          exact step_open hslots hcolumns hget fun stored hstored =>
            hindexed.of_get?_eq_none htrust hget hstored

end Ledger

end RowCode
