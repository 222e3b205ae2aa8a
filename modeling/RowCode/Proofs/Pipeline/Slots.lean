import RowCode.Proofs.Hash.Table
import RowCode.Proofs.Operator.Faults
import RowCode.Proofs.Pipeline.Clear

/-!
# Slots and index

What holds of a grouped aggregation after any calls, whichever of them failed:
the index fits the slots, a row never finds its slot missing, and every group
has one accumulator for each aggregate (`slots_indexed`). A slot that is missing
would be a fault like others in the answer to the row (`Steady` says that there
is none), and accumulators in surplus would be dropped without a word.

The index is left as free as the equality of keys leaves it. A key that is
looked up may be equal to the keys of two slots that are apart from each other,
and is led to one of them. If no keys are apart, this does not occur.
-/

namespace RowCode

/-! ## Nothing is left over -/

theorem Aggregate.length_addAll {row : Row} : ∀ {aggs : List Aggregate} {accs accs' : Row},
    accs.length = aggs.length → addAll aggs accs row = .ok accs' → accs'.length = aggs.length
  | [], _, _, _, h => by
      cases h
      rfl
  | a :: aggs, acc :: accs, accs', hlength, h => by
      rw [addAll, List.zip_cons_cons, List.mapM_cons] at h
      obtain ⟨v, -, h⟩ := Code.bind_eq_ok.1 h
      obtain ⟨rest, hrest, h⟩ := Code.bind_eq_ok.1 h
      cases h
      exact congrArg Nat.succ (length_addAll (Nat.succ.inj hlength) hrest)

/-- Every group has one accumulator for each aggregate. -/
def Wide (aggs : List Aggregate) (slots : List Group) : Prop :=
  ∀ g ∈ slots, g.accs.length = aggs.length

section

variable [KeyMap] {columns : List Nat} {aggs : List Aggregate}

theorem wide_fold {key row : Row} {groups groups' : Groups} (h : Wide aggs groups.slots)
    (hfold : groups.fold aggs key row = .ok groups') : Wide aggs groups'.slots := by
  rcases Groups.fold_cases hfold with
    ⟨slot, g, accs, -, hslot, hadd, rfl⟩ | ⟨accs, -, hadd, rfl⟩
  · intro g' hg'
    rcases List.mem_or_eq_of_mem_set hg' with hold | rfl
    · exact h g' hold
    · exact Aggregate.length_addAll (h g (List.mem_of_getElem? hslot)) hadd
  · intro g' hg'
    rcases List.mem_append.mp hg' with hold | hnew
    · exact h g' hold
    · rw [List.mem_singleton.mp hnew]
      exact Aggregate.length_addAll (List.length_map _) hadd

theorem wide_call {groups : Groups} (h : Wide aggs groups.slots) (c : Call) :
    Wide aggs ((Plan.stage (.groupBy columns aggs)).call groups c).2.slots := by
  rcases Groups.call_cases columns aggs groups c with
    hleft | ⟨key, -, row, hfold⟩ | ⟨g, hpop⟩
  · rw [hleft]
    exact h
  · exact wide_fold h hfold
  · intro g' hg'
    rw [Wide, (Groups.pop_eq_some hpop).1] at h
    exact h g' (List.mem_append_left _ hg')

theorem wide_run : ∀ (calls : List Call) {groups : Groups}, Wide aggs groups.slots →
    Wide aggs ((Plan.stage (.groupBy columns aggs)).run calls groups).2.slots
  | [], _, h => h
  | c :: calls, _, h => wide_run calls (wide_call h c)

end

/-! ## Keys and slots -/

namespace Groups

variable [KeyMap] {aggs : List Aggregate} {groups : Groups}

/-- What holds between the slots, the index and the aggregates.

- `distinct`: no two slots have equal keys;
- `entries`: the index holds the keys of the slots, each with its slot;
- `leads`: the slot that a key is led to is there, and its key is equal;
- `found`: a key is led to a slot if one of them has an equal key of its value;
- `wide`: there is one accumulator for each aggregate. -/
structure Sound (aggs : List Aggregate) (groups : Groups) : Prop where
  distinct : groups.keys.Pairwise fun key younger => key.same younger = false
  entries : ∀ key slot, (key, slot) ∈ KeyMap.entries groups.index ↔ groups.keys[slot]? = some key
  size : (KeyMap.entries groups.index).length = groups.slots.length
  leads : ∀ key slot, KeyMap.get? groups.index key = some slot →
    ∃ stored, groups.keys[slot]? = some stored ∧ stored.same key = true
  found : ∀ stored ∈ groups.keys, ∀ key, stored.same key = true → stored.compare key = .eq →
    (KeyMap.get? groups.index key).isSome
  wide : Wide aggs groups.slots

/-- A truthful key is led to a slot if one of them has an equal key, and only then. -/
theorem Sound.isSome_iff {all : List Row} {key : Row} (h : groups.Sound aggs)
    (htruthful : Truthful all) (hkeys : groups.keys ⊆ all) (hkey : key ∈ all) :
    (KeyMap.get? groups.index key).isSome ↔ ∃ stored ∈ groups.keys, stored.same key = true := by
  constructor
  · intro hfound
    obtain ⟨slot, hget⟩ := Option.isSome_iff_exists.mp hfound
    obtain ⟨stored, hstored, hsame⟩ := h.leads key slot hget
    exact ⟨stored, List.mem_of_getElem? hstored, hsame⟩
  · rintro ⟨stored, hstored, hsame⟩
    exact h.found stored hstored key hsame (htruthful stored (hkeys hstored) key hkey hsame)

/-- Where no keys are apart, the slot of a key is the only one whose key is equal to it. -/
theorem Sound.leads_iff_of_clear {key : Row} {slot : Nat} (h : groups.Sound aggs)
    (hclear : Clear (key :: groups.keys)) :
    KeyMap.get? groups.index key = some slot ↔
      ∃ stored, groups.keys[slot]? = some stored ∧ stored.same key = true := by
  refine ⟨h.leads key slot, ?_⟩
  rintro ⟨stored, hstored, hsame⟩
  have hmem := List.mem_of_getElem? hstored
  have hvalue := hclear.truthful stored (List.mem_cons_of_mem _ hmem) key List.mem_cons_self hsame
  obtain ⟨slot', hget⟩ := Option.isSome_iff_exists.mp (h.found stored hmem key hsame hvalue)
  obtain ⟨stored', hstored', hsame'⟩ := h.leads key slot' hget
  have hmem' := List.mem_of_getElem? hstored'
  have hvalue' :=
    hclear.truthful stored' (List.mem_cons_of_mem _ hmem') key List.mem_cons_self hsame'
  -- two slots with keys equal to this one have equal keys, so they are one
  have hequal : ∀ {a b : Row}, a ∈ groups.keys → b ∈ groups.keys → a.compare key = .eq →
      b.compare key = .eq → a.same b = true := fun ha hb hakey hbkey =>
    (Row.same_iff (hclear _ (List.mem_cons_of_mem _ ha) _ (List.mem_cons_of_mem _ hb))).mpr
      (Std.TransCmp.eq_trans hakey (Std.OrientedCmp.eq_symm hbkey))
  obtain ⟨hlt, rfl⟩ := List.getElem?_eq_some_iff.mp hstored
  obtain ⟨hlt', rfl⟩ := List.getElem?_eq_some_iff.mp hstored'
  have hapart := List.pairwise_iff_getElem.mp h.distinct
  rcases Nat.lt_trichotomy slot slot' with hlt'' | rfl | hlt''
  · have hfalse := hapart slot slot' hlt hlt' hlt''
    rw [hequal hmem hmem' hvalue hvalue'] at hfalse
    cases hfalse
  · exact hget
  · have hfalse := hapart slot' slot hlt' hlt hlt''
    rw [hequal hmem' hmem hvalue' hvalue] at hfalse
    cases hfalse

theorem Indexed.sound [LawfulKeyMap] (h : groups.Indexed) (hwide : Wide aggs groups.slots) :
    groups.Sound aggs where
  distinct := h.distinct
  entries _ _ := h.mem_entries
  size := by rw [h.entries.length_eq, List.length_zipIdx, keys, List.length_map]
  leads key slot hget := by
    obtain ⟨g, hslot, hsame⟩ := h.of_get?_eq_some hget
    exact ⟨g.key, getElem?_keys.mpr ⟨g, hslot, rfl⟩, hsame⟩
  found _ hstored _ := h.get?_isSome hstored
  wide := hwide

end Groups

/-! ## Nothing is missing -/

/-- The fault of an index that leads past the slots. -/
def Fault.Astray : Fault → Prop
  | .violation (.slotRange _ _) => True
  | _ => False

/-- A computation that does not come upon a missing slot. -/
inductive Steady {α : Type} : Except Fault α → Prop where
  | ok (v : α) : Steady (.ok v)
  | error {e : Fault} (h : ¬e.Astray) : Steady (.error e)

theorem Steady.bind {α β : Type} {x : Except Fault α} {f : α → Except Fault β} (hx : Steady x)
    (hf : ∀ v, Steady (f v)) : Steady (x >>= f) := by
  cases hx with
  | ok v => exact hf v
  | error h => exact .error h

theorem Tame.steady {α : Type} {x : Except Fault α} (h : Tame x) : Steady x := by
  cases h with
  | ok v => exact .ok v
  | @error e h => exact .error (by cases e <;> first | exact h.elim | exact id)

theorem Operand.steady_unwrap (t : Ty) : ∀ v : Operand, Steady (v.unwrap t)
  | none => .ok _
  | some v => by
      rw [unwrap]
      split
      · exact .ok _
      · exact .error id

namespace Aggregate

theorem steady_column (row : Row) (index : Nat) : Steady (column row index) := by
  rw [column]
  split
  · exact .ok _
  · exact .error id

theorem steady_increment (acc : Operand) : Steady (increment acc) :=
  (acc.steady_unwrap .int64).bind fun
    | some _ => .ok _
    | none => .ok _

theorem steady_fold {t : Ty} {f : t.Carrier → t.Carrier → Except Fault t.Carrier}
    (hf : ∀ acc v, Steady (f acc v)) (index : Nat) (acc : Operand) (row : Row) :
    Steady (fold t f index acc row) := by
  refine (steady_column row index).bind fun v => (v.steady_unwrap t).bind ?_
  rintro (_ | v)
  · exact .ok _
  · refine (acc.steady_unwrap t).bind ?_
    rintro (_ | acc)
    · exact .ok _
    · exact (hf acc v).bind fun _ => .ok _

theorem steady_add (acc : Operand) (row : Row) : ∀ a : Aggregate, Steady (a.add acc row)
  | countAll => steady_increment acc
  | count index _ => (steady_column row index).bind fun
      | none => .ok _
      | some _ => steady_increment acc
  | sum index t => steady_fold (fun acc v => (t.tame_arith.add acc v).steady) index acc row
  | sum0 index t => steady_fold (fun acc v => (t.tame_arith.add acc v).steady) index acc row
  | extreme _ index _ => steady_fold (fun _ _ => .ok _) index acc row

theorem steady_addAll (row : Row) : ∀ (aggs : List Aggregate) (accs : Row),
    Steady (addAll aggs accs row)
  | [], _ => .ok _
  | _ :: _, [] => .ok _
  | a :: aggs, acc :: accs => by
      rw [addAll, List.zip_cons_cons, List.mapM_cons]
      exact (steady_add acc row a).bind fun _ =>
        (steady_addAll row aggs accs).bind fun _ => .ok _

end Aggregate

theorem Stage.steady_groupKey (row : Row) : ∀ columns : List Nat, Steady (groupKey columns row)
  | [] => .ok _
  | i :: columns => by
      rw [groupKey, List.mapM_cons]
      refine Steady.bind ?_ fun _ => (steady_groupKey row columns).bind fun _ => .ok _
      split
      · exact .ok _
      · exact .error id

namespace Groups

variable [KeyMap] [LawfulKeyMap] {columns : List Nat} {aggs : List Aggregate} {groups : Groups}

/-- The slot that the index gives is there. -/
theorem Indexed.steady_fold (h : groups.Indexed) (aggs : List Aggregate) (key row : Row) :
    Steady (groups.fold aggs key row) := by
  cases hget : KeyMap.get? groups.index key with
  | none =>
      rw [fold_of_none hget]
      exact (Aggregate.steady_addAll row aggs _).bind fun _ => .ok _
  | some slot =>
      obtain ⟨g, hslot, -⟩ := h.of_get?_eq_some hget
      rw [fold_of_some hget hslot]
      exact (Aggregate.steady_addAll row aggs _).bind fun _ => .ok _

theorem Indexed.steady_call (h : groups.Indexed) (c : Call) :
    Steady ((Plan.stage (.groupBy columns aggs)).call groups c).1 := by
  cases c with
  | get =>
      rw [Plan.call, get_groupBy]
      split <;> exact .ok _
  | put row =>
      rw [Plan.call, put_groupBy]
      have hkey := Stage.steady_groupKey row columns
      split
      · next e he =>
        rw [he] at hkey
        cases hkey with
        | error h => exact .error h
      · next key he =>
        have hfold := h.steady_fold aggs key row
        split
        · next e he =>
          rw [he] at hfold
          cases hfold with
          | error h => exact .error h
        · exact .ok _

theorem Among.steady_run {all : List Row} (htruthful : Truthful all) :
    ∀ {groups : Groups} (calls : List Call), groups.Among all → Call.keys columns calls ⊆ all →
      ∀ answer ∈ ((Plan.stage (.groupBy columns aggs)).run calls groups).1, Steady answer
  | _, [], _, _, _, hanswer => nomatch hanswer
  | groups, c :: calls, h, hall, answer, hanswer => by
      rw [Call.keys_cons, List.append_subset] at hall
      rcases List.mem_cons.mp hanswer with rfl | hlater
      · exact h.indexed.steady_call c
      · exact steady_run htruthful calls (h.call htruthful hall.1) hall.2 answer hlater

end Groups

/-- The index and the slots of a grouped aggregation fit each other, whatever calls were made and
whichever of them failed, as long as no two keys of different values pass for equal: what is kept
is sound (`Groups.Sound`), no call came upon a slot that is not there, and an aggregate never
lacks its accumulator when a row is folded in. A key is led to a slot exactly if there is one
with an equal key. Where no keys are apart, it is led to a slot exactly if that slot has an equal
key. -/
theorem slots_indexed [KeyMap] [LawfulKeyMap] (columns : List Nat) (aggs : List Aggregate)
    (calls : List Call) (htruthful : Truthful (Call.keys columns calls)) :
    let kept := (Plan.stage (.groupBy columns aggs)).run calls Groups.empty
    kept.2.Sound aggs ∧
      (∀ answer ∈ kept.1, Steady answer) ∧
      (∀ g ∈ kept.2.slots, (aggs.zip g.accs).map Prod.fst = aggs) ∧
      (∀ key ∈ Call.keys columns calls, (KeyMap.get? kept.2.index key).isSome ↔
        ∃ stored ∈ kept.2.keys, stored.same key = true) ∧
      ∀ key slot, Clear (key :: kept.2.keys) →
        (KeyMap.get? kept.2.index key = some slot ↔
          ∃ stored, kept.2.keys[slot]? = some stored ∧ stored.same key = true) := by
  intro kept
  have hstart : Groups.empty.Among (Call.keys columns calls) := .empty
  have hamong : kept.2.Among (Call.keys columns calls) :=
    hstart.run htruthful calls (List.Subset.refl _)
  have hwide : Wide aggs kept.2.slots := wide_run calls nofun
  have hsound := hamong.indexed.sound hwide
  refine ⟨hsound, hstart.steady_run htruthful calls (List.Subset.refl _), ?_, ?_,
    fun _ _ => hsound.leads_iff_of_clear⟩
  · intro g hg
    exact List.map_fst_zip (hwide g hg).ge
  · exact fun key => hsound.isSome_iff htruthful hamong.keys

theorem slots_indexed_after_drain :
    let calls : List Call := [.put [some (.int32 1)], .put [some (.int32 2)], .get,
      .put [some (.int32 3)], .put [some (.int32 2)], .put []]
    let kept := (Plan.stage (.groupBy [0] [.countAll])).run calls Groups.empty
    Truthful (Call.keys [0] calls) ∧ kept.2.keys = [[some (.int32 1)], [some (.int32 3)],
      [some (.int32 2)]] ∧ kept.2.Sound [.countAll] ∧ ∀ answer ∈ kept.1, Steady answer := by
  intro calls kept
  have htruthful : Truthful (Call.keys [0] calls) := by decide
  obtain ⟨hsound, hsteady, -⟩ := slots_indexed [0] [.countAll] calls htruthful
  exact ⟨htruthful, by decide +kernel, hsound, hsteady⟩

/-- Two slots for one decimal, written without zeros after the point and with ten. Written with
five it is equal to both, and the index leads to the first slot only. -/
theorem slots_of_one_value :
    let a : Row := [some (.decimal ⟨7922816251533193472, 0⟩)]
    let b : Row := [some (.decimal ⟨79228162515331934720000000000, 10⟩)]
    let c : Row := [some (.decimal ⟨792281625153319347200000, 5⟩)]
    let kept := (Plan.stage (.groupBy [0] [.countAll])).run [.put a, .put b] Groups.empty
    kept.1 = [.ok none, .ok none] ∧ kept.2.keys = [a, b] ∧ a.compare b = .eq ∧
      a.same c = true ∧ b.same c = true ∧ KeyMap.get? kept.2.index c = some 0 := by
  decide +kernel

end RowCode
