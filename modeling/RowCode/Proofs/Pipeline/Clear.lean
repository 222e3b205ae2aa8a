import RowCode.Proofs.Operand.Order
import RowCode.Proofs.Pipeline.Calls

/-!
# Clear keys

Equality of rows departs from equality of value in two ways, both by decimals
that are apart: rows of one value are told apart, or rows of different values
pass for equal. Keys are `Truthful` if the second does not happen among them,
and `Clear` if neither does.

Among truthful keys the index of a grouped aggregation can be relied on. Among
clear keys it also leaves no choice: a key is led to the slot that has its value,
and there is only one (`Tidy.get?_eq`). So what a grouped aggregation does with
them can be told from its slots alone, whatever map its index is.
-/

namespace RowCode

/-- Keys that are equal are of one value. -/
def Truthful (keys : List Row) : Prop :=
  ∀ a ∈ keys, ∀ b ∈ keys, a.same b = true → a.compare b = .eq

instance (keys : List Row) : Decidable (Truthful keys) :=
  inferInstanceAs (Decidable (∀ a ∈ keys, ∀ b ∈ keys, a.same b = true → a.compare b = .eq))

/-- No two of the keys are apart. -/
def Clear (keys : List Row) : Prop :=
  ∀ a ∈ keys, ∀ b ∈ keys, ¬Row.Apart a b

theorem Clear.truthful {keys : List Row} (h : Clear keys) : Truthful keys :=
  fun a ha b hb hsame => (Row.same_iff (h a ha b hb)).mp hsame

/-- Among truthful keys, those that are equal are those of one value that are not apart. -/
theorem Truthful.same_iff {keys : List Row} (h : Truthful keys) {a b : Row} (ha : a ∈ keys)
    (hb : b ∈ keys) : a.same b = true ↔ a.compare b = .eq ∧ ¬Row.Apart a b := by
  constructor
  · intro hsame
    have hvalue := h a ha b hb hsame
    exact ⟨hvalue, (Row.same_eq_true_iff hvalue).mp hsame⟩
  · rintro ⟨hvalue, hapart⟩
    exact (Row.same_eq_true_iff hvalue).mpr hapart

/-! ## Keys of calls -/

/-- The keys of the rows that are put in, of those rows that have one. -/
def Call.keys (columns : List Nat) (calls : List Call) : List Row :=
  calls.filterMap fun c =>
    match c with
    | put row => (Stage.groupKey columns row).toOption
    | get => none

theorem Call.keys_cons (columns : List Nat) (c : Call) (calls : List Call) :
    keys columns (c :: calls) = keys columns [c] ++ keys columns calls :=
  List.filterMap_append (l := [c])

theorem Call.mem_keys_put {columns : List Nat} {row key : Row}
    (hkey : Stage.groupKey columns row = .ok key) : key ∈ keys columns [.put row] := by
  simp [keys, hkey, Except.toOption]

variable [KeyMap]

namespace Groups

variable {columns : List Nat} {aggs : List Aggregate} {key row : Row} {groups groups' : Groups}

/-- The keys after a row has been folded: those before, and behind them the key
of the row if the index did not find it. -/
theorem keys_fold (h : groups.fold aggs key row = .ok groups') :
    groups'.keys = groups.keys ∨
      KeyMap.get? groups.index key = none ∧ groups'.keys = groups.keys ++ [key] := by
  rcases fold_cases h with ⟨slot, g, accs, -, hslot, -, rfl⟩ | ⟨accs, hget, -, rfl⟩
  · exact .inl (keys_set accs hslot)
  · exact .inr ⟨hget, List.map_append⟩

/-- What a call leaves behind: the groups as they were, or after a row has been
folded, or without the newest. -/
theorem call_cases (columns : List Nat) (aggs : List Aggregate) (groups : Groups) (c : Call) :
    let left := ((Plan.stage (.groupBy columns aggs)).call groups c).2
    left = groups ∨
      (∃ key ∈ Call.keys columns [c], ∃ row, groups.fold aggs key row = .ok left) ∨
      ∃ g, groups.pop = some (g, left) := by
  cases c with
  | put row =>
      rw [Plan.call, put_groupBy]
      cases hkey : Stage.groupKey columns row with
      | error e => exact .inl rfl
      | ok key =>
          dsimp only
          cases hfold : groups.fold aggs key row with
          | error e => exact .inl rfl
          | ok groups' => exact .inr (.inl ⟨key, Call.mem_keys_put hkey, row, hfold⟩)
  | get =>
      rw [Plan.call, get_groupBy]
      cases hpop : groups.pop with
      | none => exact .inl rfl
      | some popped => exact .inr (.inr ⟨popped.1, rfl⟩)

/-! ## Truthful keys -/

/-- Groups with keys out of a list, and an index that fits them. -/
structure Among (all : List Row) (groups : Groups) : Prop where
  indexed : groups.Indexed
  keys : groups.keys ⊆ all

theorem Among.trusts {all : List Row} (htruthful : Truthful all) (h : groups.Among all)
    (hkey : key ∈ all) : groups.Trusts key :=
  fun stored hstored => htruthful stored (h.keys hstored) key hkey

namespace Among

variable [LawfulKeyMap] {all : List Row}

theorem empty : Among all Groups.empty :=
  ⟨.empty, List.nil_subset _⟩

theorem call (htruthful : Truthful all) (h : groups.Among all) {c : Call}
    (hall : Call.keys columns [c] ⊆ all) :
    ((Plan.stage (.groupBy columns aggs)).call groups c).2.Among all := by
  rcases call_cases columns aggs groups c with
    hleft | ⟨key, hkey, row, hfold⟩ | ⟨g, hpop⟩
  · rw [hleft]
    exact h
  · refine ⟨h.indexed.fold (h.trusts htruthful (hall hkey)) hfold, ?_⟩
    rcases keys_fold hfold with hkeys | ⟨-, hkeys⟩ <;> rw [hkeys]
    · exact h.keys
    · exact List.append_subset.mpr ⟨h.keys, List.cons_subset.mpr ⟨hall hkey, List.nil_subset _⟩⟩
  · refine ⟨h.indexed.pop hpop, fun stored hstored => h.keys ?_⟩
    rw [Groups.keys, (pop_eq_some hpop).1, List.map_append]
    exact List.mem_append_left _ hstored

theorem run (htruthful : Truthful all) : ∀ {groups : Groups} (calls : List Call),
    groups.Among all → Call.keys columns calls ⊆ all →
    ((Plan.stage (.groupBy columns aggs)).run calls groups).2.Among all
  | _, [], h, _ => h
  | _, c :: calls, h, hall => by
      rw [Call.keys_cons, List.append_subset] at hall
      exact run htruthful calls (h.call htruthful hall.1) hall.2

end Among

/-! ## Clear keys -/

/-- None of the live keys is apart from the key. -/
def Clears (groups : Groups) (key : Row) : Prop :=
  ∀ stored ∈ groups.keys, ¬Row.Apart stored key

theorem Clears.trusts (h : groups.Clears key) : groups.Trusts key :=
  fun stored hstored hsame => (Row.same_iff (h stored hstored)).mp hsame

/-- Groups with their index, no two of which have keys of one value. -/
structure Tidy (groups : Groups) : Prop where
  indexed : groups.Indexed
  spread : groups.keys.Pairwise fun key younger => key.compare younger ≠ .eq

/-- Where no keys are apart, two of one value are equal. -/
theorem Among.tidy {all : List Row} (hclear : Clear all) (h : groups.Among all) : groups.Tidy := by
  refine ⟨h.indexed, h.indexed.distinct.imp_of_mem fun hkey hyounger hsame hvalue => ?_⟩
  rw [(Row.same_iff (hclear _ (h.keys hkey) _ (h.keys hyounger))).mpr hvalue] at hsame
  cases hsame

theorem Among.clears {all : List Row} (hclear : Clear all) (h : groups.Among all)
    (hkey : key ∈ all) : groups.Clears key :=
  fun stored hstored => hclear stored (h.keys hstored) key hkey

variable [LawfulKeyMap]

/-- The index leads to the one slot with a key of the value. -/
theorem Tidy.get?_eq (h : groups.Tidy) (hclear : groups.Clears key) :
    KeyMap.get? groups.index key =
      groups.keys.findIdx? fun stored => stored.compare key == .eq := by
  cases hget : KeyMap.get? groups.index key with
  | none =>
      refine (List.findIdx?_eq_none_iff.mpr fun stored hstored => ?_).symm
      have hsame := h.indexed.of_get?_eq_none hclear.trusts hget hstored
      rw [beq_eq_false_iff_ne, ne_eq, ← Row.same_iff (hclear stored hstored), hsame]
      exact Bool.false_ne_true
  | some slot =>
      obtain ⟨g, hslot, hsame⟩ := h.indexed.of_get?_eq_some hget
      have hkey : groups.keys[slot]? = some g.key := getElem?_keys.mpr ⟨g, hslot, rfl⟩
      obtain ⟨hlt, hkey⟩ := List.getElem?_eq_some_iff.mp hkey
      have hvalue : g.key.compare key = .eq :=
        hclear.trusts g.key (hkey ▸ List.getElem_mem hlt) hsame
      refine (List.findIdx?_eq_some_iff_getElem.mpr ⟨hlt, ?_, fun j hj => ?_⟩).symm
      · rw [hkey, hvalue]
        rfl
      · -- an older key of the value would be of the value of this one
        rw [beq_iff_eq]
        intro holder
        refine List.pairwise_iff_getElem.mp h.spread j slot (by omega) hlt hj ?_
        rw [hkey]
        exact Std.TransCmp.eq_trans holder (Std.OrientedCmp.eq_symm hvalue)

namespace Tidy

theorem empty : Tidy Groups.empty :=
  ⟨.empty, .nil⟩

theorem fold (h : groups.Tidy) (hclear : groups.Clears key)
    (hfold : groups.fold aggs key row = .ok groups') : groups'.Tidy := by
  refine ⟨h.indexed.fold hclear.trusts hfold, ?_⟩
  rcases keys_fold hfold with hkeys | ⟨hget, hkeys⟩
  · rw [hkeys]
    exact h.spread
  · rw [hkeys, List.pairwise_append]
    refine ⟨h.spread, List.pairwise_singleton _ _, fun stored hstored younger hyounger => ?_⟩
    have hsame := h.indexed.of_get?_eq_none hclear.trusts hget hstored
    rw [List.mem_singleton.mp hyounger, ne_eq, ← Row.same_iff (hclear stored hstored), hsame]
    exact Bool.false_ne_true

theorem pop {g : Group} (h : groups.Tidy) (hpop : groups.pop = some (g, groups')) :
    groups'.Tidy := by
  have hspread := h.spread
  rw [keys, (pop_eq_some hpop).1, List.map_append] at hspread
  exact ⟨h.indexed.pop hpop, (List.pairwise_append.mp hspread).1⟩

theorem call {columns : List Nat} (h : groups.Tidy) {c : Call}
    (hclear : ∀ key ∈ Call.keys columns [c], groups.Clears key) :
    ((Plan.stage (.groupBy columns aggs)).call groups c).2.Tidy := by
  rcases call_cases columns aggs groups c with
    hleft | ⟨key, hkey, row, hfold⟩ | ⟨g, hpop⟩
  · rw [hleft]
    exact h
  · exact h.fold (hclear key hkey) hfold
  · exact h.pop hpop

end Tidy

end Groups

end RowCode
