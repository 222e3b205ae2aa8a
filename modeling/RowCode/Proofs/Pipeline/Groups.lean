import RowCode.Pipeline.Plan

/-!
# Groups and their index

What a grouped aggregation does in one call (`put_groupBy`, `fold_cases` and
`get_groupBy`), and what it keeps from one call to the next: the index holds the
keys of the slots, each with its slot, and no two of these keys are equal
(`Groups.Indexed`).

That the index can be relied on is a matter of the keys. A key has to be of one
value with the live keys that it is equal to (`Groups.Trusts`). Then a key that
the index does not find is equal to no live key, and so it can be stored beside
them.
-/

namespace RowCode

variable [KeyMap]

namespace Groups

variable {aggs : List Aggregate} {key row : Row} {groups groups' : Groups}

/-! ## One call -/

theorem fold_of_some {slot : Nat} {g : Group} (hget : KeyMap.get? groups.index key = some slot)
    (hslot : groups.slots[slot]? = some g) :
    groups.fold aggs key row = (Aggregate.addAll aggs g.accs row).map fun accs =>
      { groups with slots := groups.slots.set slot ⟨g.key, accs⟩ } := by
  rw [fold, hget]
  dsimp only
  rw [update, hslot]
  dsimp only
  cases Aggregate.addAll aggs g.accs row <;> rfl

theorem fold_of_none (hget : KeyMap.get? groups.index key = none) :
    groups.fold aggs key row =
      (Aggregate.addAll aggs (Aggregate.initials aggs) row).map fun accs =>
        ⟨KeyMap.insert key groups.slots.length groups.index, groups.slots ++ [⟨key, accs⟩]⟩ := by
  rw [fold, hget]
  dsimp only
  rw [push]
  cases Aggregate.addAll aggs (Aggregate.initials aggs) row <;> rfl

/-- A row that is folded goes to the slot that the index gives, or to a new one
behind all others if it gives none. -/
theorem fold_cases (h : groups.fold aggs key row = .ok groups') :
    (∃ slot g accs, KeyMap.get? groups.index key = some slot ∧ groups.slots[slot]? = some g ∧
      Aggregate.addAll aggs g.accs row = .ok accs ∧
      groups' = { groups with slots := groups.slots.set slot ⟨g.key, accs⟩ }) ∨
    ∃ accs, KeyMap.get? groups.index key = none ∧
      Aggregate.addAll aggs (Aggregate.initials aggs) row = .ok accs ∧
      groups' = ⟨KeyMap.insert key groups.slots.length groups.index,
        groups.slots ++ [⟨key, accs⟩]⟩ := by
  cases hget : KeyMap.get? groups.index key with
  | none =>
      rw [fold_of_none hget] at h
      cases hadd : Aggregate.addAll aggs (Aggregate.initials aggs) row with
      | error e => rw [hadd] at h; cases h
      | ok accs =>
          rw [hadd] at h
          cases h
          exact .inr ⟨accs, rfl, rfl, rfl⟩
  | some slot =>
      cases hslot : groups.slots[slot]? with
      | none =>
          rw [fold, hget] at h
          dsimp only at h
          rw [update, hslot] at h
          cases h
      | some g =>
          rw [fold_of_some hget hslot] at h
          cases hadd : Aggregate.addAll aggs g.accs row with
          | error e => rw [hadd] at h; cases h
          | ok accs =>
              rw [hadd] at h
              cases h
              exact .inl ⟨slot, g, accs, rfl, hslot, hadd, rfl⟩

theorem length_fold_le (h : groups.fold aggs key row = .ok groups') :
    groups'.slots.length ≤ groups.slots.length + 1 := by
  rcases fold_cases h with ⟨slot, g, accs, -, -, -, rfl⟩ | ⟨accs, -, -, rfl⟩
  · rw [List.length_set]
    exact Nat.le_succ _
  · rw [List.length_append]
    exact Nat.le_refl _

theorem pop_eq_none_iff : groups.pop = none ↔ groups.slots = [] := by
  rw [pop]
  cases hlast : groups.slots.getLast? with
  | none => exact iff_of_true rfl (List.getLast?_eq_none_iff.mp hlast)
  | some g => exact iff_of_false nofun fun hnil => by simp [hnil] at hlast

theorem pop_concat (index : KeyMap.Table) (slots : List Group) (g : Group) :
    pop ⟨index, slots ++ [g]⟩ = some (g, ⟨KeyMap.remove index g.key, slots⟩) := by
  simp [pop]

/-- The newest group stands behind the others. -/
theorem pop_eq_some {g : Group} (h : groups.pop = some (g, groups')) :
    groups.slots = groups'.slots ++ [g] ∧ groups'.index = KeyMap.remove groups.index g.key := by
  obtain ⟨index, slots⟩ := groups
  rcases List.eq_nil_or_concat slots with rfl | ⟨older, newest, rfl⟩
  · cases h
  · rw [List.concat_eq_append, pop_concat] at h
    cases h
    exact ⟨List.concat_eq_append, rfl⟩

section

variable (columns : List Nat) (aggs : List Aggregate) (groups : Groups)

theorem put_groupBy (row : Row) :
    (Plan.stage (.groupBy columns aggs)).put row groups =
      match Stage.groupKey columns row with
      | .error e => (.error e, groups)
      | .ok key =>
        match groups.fold aggs key row with
        | .error e => (.error e, groups)
        | .ok groups => (.ok none, groups) := by
  rw [Plan.put, Stage.put]
  cases Stage.groupKey columns row with
  | error e => rfl
  | ok key =>
      simp only [bind, Except.bind]
      cases groups.fold aggs key row <;> rfl

theorem get_groupBy :
    (Plan.stage (.groupBy columns aggs)).get groups =
      match groups.pop with
      | none => (.ok none, groups)
      | some (g, groups) => (.ok (some g.row), groups) := by
  rw [Plan.get, Stage.get]
  cases groups.pop <;> rfl

end

/-! ## The index -/

/-- The keys of the slots, the oldest first. -/
def keys (groups : Groups) : List Row :=
  groups.slots.map Group.key

/-- The index holds the keys of the slots, each with its slot, and no two of them are equal. -/
structure Indexed (groups : Groups) : Prop where
  made : KeyMap.Made groups.index
  entries : (KeyMap.entries groups.index).Perm groups.keys.zipIdx
  distinct : groups.keys.Pairwise fun key younger => key.same younger = false

/-- The live keys that the key is equal to are of its value. -/
def Trusts (groups : Groups) (key : Row) : Prop :=
  ∀ stored ∈ groups.keys, stored.same key = true → stored.compare key = .eq

theorem getElem?_keys {slot : Nat} {stored : Row} :
    groups.keys[slot]? = some stored ↔ ∃ g, groups.slots[slot]? = some g ∧ g.key = stored := by
  rw [keys, List.getElem?_map, Option.map_eq_some_iff]

/-- To fold a row into a group leaves its key as it is. -/
theorem keys_set {slot : Nat} {g : Group} (accs : Row) (hslot : groups.slots[slot]? = some g) :
    keys { groups with slots := groups.slots.set slot ⟨g.key, accs⟩ } = groups.keys := by
  obtain ⟨hlt, -⟩ := List.getElem?_eq_some_iff.mp hslot
  rw [keys, List.map_set]
  refine List.ext_getElem? fun i => ?_
  by_cases hi : slot = i
  · subst hi
    rw [keys, List.getElem?_set_self (by rwa [List.length_map]), List.getElem?_map, hslot]
    rfl
  · rw [keys, List.getElem?_set_ne hi]

namespace Indexed

theorem mem_entries (h : groups.Indexed) {stored : Row} {slot : Nat} :
    (stored, slot) ∈ KeyMap.entries groups.index ↔ groups.keys[slot]? = some stored := by
  rw [h.entries.mem_iff, List.mem_zipIdx_iff_getElem?]

variable [LawfulKeyMap]

theorem empty : Indexed Groups.empty where
  made := .empty
  entries := by
    rw [Groups.empty, LawfulKeyMap.entries_empty]
    exact .refl _
  distinct := .nil

/-- A slot that the index gives has an equal key. -/
theorem of_get?_eq_some (h : groups.Indexed) {slot : Nat}
    (hget : KeyMap.get? groups.index key = some slot) :
    ∃ g, groups.slots[slot]? = some g ∧ g.key.same key = true := by
  obtain ⟨stored, hstored, hsame⟩ := LawfulKeyMap.sound h.made hget
  obtain ⟨g, hslot, rfl⟩ := getElem?_keys.mp (h.mem_entries.mp hstored)
  exact ⟨g, hslot, hsame⟩

/-- A key that is equal to a live one of its value is found. -/
theorem get?_isSome (h : groups.Indexed) {stored : Row} (hstored : stored ∈ groups.keys)
    (hsame : stored.same key = true) (hvalue : stored.compare key = .eq) :
    (KeyMap.get? groups.index key).isSome := by
  obtain ⟨slot, hslot⟩ := List.getElem?_of_mem hstored
  exact LawfulKeyMap.complete h.made (h.mem_entries.mpr hslot) hsame hvalue

/-- A key that the index does not find is equal to no live one. -/
theorem of_get?_eq_none (h : groups.Indexed) (htrust : groups.Trusts key)
    (hget : KeyMap.get? groups.index key = none) {stored : Row} (hstored : stored ∈ groups.keys) :
    stored.same key = false := by
  rw [Bool.eq_false_iff]
  intro hsame
  have hfound := h.get?_isSome hstored hsame (htrust stored hstored hsame)
  rw [hget] at hfound
  cases hfound

theorem fold (h : groups.Indexed) (htrust : groups.Trusts key)
    (hfold : groups.fold aggs key row = .ok groups') : groups'.Indexed := by
  rcases fold_cases hfold with ⟨slot, g, accs, -, hslot, -, rfl⟩ | ⟨accs, hget, -, rfl⟩
  · have hkeys := keys_set accs hslot
    exact ⟨h.made, hkeys ▸ h.entries, hkeys ▸ h.distinct⟩
  · have hnew : ∀ stored ∈ groups.keys, stored.same key = false := fun stored hstored =>
      h.of_get?_eq_none htrust hget hstored
    have hkeys : keys ⟨KeyMap.insert key groups.slots.length groups.index,
        groups.slots ++ [⟨key, accs⟩]⟩ = groups.keys ++ [key] := List.map_append
    have hlength : groups.keys.length = groups.slots.length := List.length_map _
    refine ⟨.insert key _ h.made, ?_, ?_⟩
    · have hinsert := LawfulKeyMap.insert groups.slots.length h.made fun e he =>
        hnew e.1 (List.mem_of_getElem? (h.mem_entries.mp he))
      rw [hkeys, List.zipIdx_append, Nat.zero_add, hlength]
      exact (hinsert.trans (h.entries.cons _)).trans (List.perm_append_singleton _ _).symm
    · rw [hkeys, List.pairwise_append]
      refine ⟨h.distinct, List.pairwise_singleton _ _, fun stored hstored younger hyounger => ?_⟩
      rw [List.mem_singleton.mp hyounger]
      exact hnew stored hstored

/-- The newest group takes its own key out of the index. -/
theorem pop {g : Group} (h : groups.Indexed) (hpop : groups.pop = some (g, groups')) :
    groups'.Indexed := by
  obtain ⟨hslots, hindex⟩ := pop_eq_some hpop
  have hkeys : groups.keys = groups'.keys ++ [g.key] := by
    rw [keys, hslots, List.map_append]
    rfl
  have hentries := h.entries
  have hdistinct := h.distinct
  rw [hkeys] at hdistinct
  rw [hkeys, List.zipIdx_append] at hentries
  obtain ⟨holder, -, hnewest⟩ := List.pairwise_append.mp hdistinct
  refine ⟨?_, ?_, holder⟩ <;> rw [hindex]
  · exact .remove _ h.made
  · refine LawfulKeyMap.remove h.made (hentries.trans (List.perm_append_singleton _ _)) ?_
    intro e he
    exact hnewest e.1 (List.mem_of_getElem? (List.mem_zipIdx_iff_getElem?.mp he)) g.key
      (List.mem_singleton_self _)

end Indexed

end Groups

end RowCode
