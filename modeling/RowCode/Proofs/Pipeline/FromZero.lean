import RowCode.Hash.Table
import RowCode.Proofs.Binary.Sum
import RowCode.Proofs.Operator.Integer
import RowCode.Proofs.Pipeline.Calls
import RowCode.Proofs.Pipeline.Drain
import RowCode.Proofs.Pipeline.Groups

/-!
# Sums from zero

A sum takes the first value that is not null as it is; a sum from zero adds it
to zero. The two run side by side (`Aggregate.Tied`): as long as the one is null
the other is zero, and from then on they are of one value. One more row keeps
them tied or is refused by both for one reason, because adding to zero never
fails and values that the order takes for equal have sums that it takes for
equal (`NumTy.alike_zero_add`, `NumTy.alike_add`). Ties of accumulators are ties
of groups, found through one index, and those are ties of whole runs
(`Plan.alike_run`).

Slots of one value are equal, but for decimals that equality tells apart. A
zero raises the scale of the first value, and it may do so by ten places.
-/

namespace RowCode

/-! ## Computations side by side -/

/-- Two computations that fail with the same fault, or succeed with results
that are related. -/
inductive Alike {α β : Type} (R : α → β → Prop) : Except Fault α → Except Fault β → Prop where
  | ok {a : α} {b : β} (h : R a b) : Alike R (.ok a) (.ok b)
  | error (e : Fault) : Alike R (.error e) (.error e)

namespace Alike

variable {α β α' β' : Type} {R : α → β → Prop} {S : α' → β' → Prop}

theorem bind {x : Except Fault α} {y : Except Fault β} {f : α → Except Fault α'}
    {g : β → Except Fault β'} (h : Alike R x y) (hfg : ∀ {a b}, R a b → Alike S (f a) (g b)) :
    Alike S (x >>= f) (y >>= g) := by
  cases h with
  | ok h => exact hfg h
  | error e => exact .error e

theorem refl {R : α → α → Prop} (hR : ∀ a, R a a) : ∀ x : Except Fault α, Alike R x x
  | .ok a => .ok (hR a)
  | .error e => .error e

end Alike

/-! ## Sums of one value -/

theorem IntTy.zero_add (t : IntTy) (c : t.Carrier) :
    (Arith.ofWindow t.window).add (Arith.ofWindow t.window).zero c = .ok c := by
  have hzero : t.toInt (t.window.ofInt 0) = 0 := toInt_ofInt t.faithful_window.contains_zero
  have hadd : (Arith.ofWindow t.window).add (Arith.ofWindow t.window).zero c =
      t.window.exact (t.toInt (t.window.ofInt 0) + t.toInt c) := rfl
  rw [hadd, hzero, Int.zero_add, Window.exact, if_pos (contains_toInt c), ofInt_toInt]

namespace NumTy

/-- The second value is of the value of the first. -/
def Tied (t : NumTy) (c c' : t.ty.Carrier) : Prop :=
  (t.ty.wrap c').compare (t.ty.wrap c) = .eq

theorem tied_self (t : NumTy) (c : t.ty.Carrier) : t.Tied c c :=
  Scalar.compare_self _

/-- Added to zero, a value is of the value it was. -/
theorem alike_zero_add (t : NumTy) (c : t.ty.Carrier) :
    Alike t.Tied (.ok c) (t.arith.add t.arith.zero c) := by
  cases t with
  | int32 =>
      have hadd : NumTy.int32.arith.add NumTy.int32.arith.zero c = .ok c := IntTy.int32.zero_add c
      rw [hadd]
      exact .ok (tied_self _ c)
  | int64 =>
      have hadd : NumTy.int64.arith.add NumTy.int64.arith.zero c = .ok c := IntTy.int64.zero_add c
      rw [hadd]
      exact .ok (tied_self _ c)
  | float32 =>
      exact .ok (Std.compare_eq_iff_eq.mpr (Binary.rank_zero_add (Binary.isZero_zero false) c))
  | float64 =>
      exact .ok (Std.compare_eq_iff_eq.mpr (Binary.rank_zero_add (Binary.isZero_zero false) c))
  | decimal =>
      have hvalue : (Decimal.zero.add c).value = Decimal.value c := by
        rw [Decimal.value_add, Decimal.zero, Decimal.value_zero, zero_add]
      exact .ok (Decimal.compare_eq_iff_value.mpr hvalue)

/-- Sums of values that are the same in value are so too, or both fail. -/
theorem alike_add {t : NumTy} {c c' : t.ty.Carrier} (h : t.Tied c c') (d : t.ty.Carrier) :
    Alike t.Tied (t.arith.add c d) (t.arith.add c' d) := by
  cases t with
  | int32 =>
      obtain rfl : c' = c := Std.compare_eq_iff_eq.mp h
      exact .refl (tied_self _) _
  | int64 =>
      obtain rfl : c' = c := Std.compare_eq_iff_eq.mp h
      exact .refl (tied_self _) _
  | float32 =>
      have hrank := Std.compare_eq_iff_eq.mp h
      exact .ok (Std.compare_eq_iff_eq.mpr (Binary.rank_add_congr hrank d))
  | float64 =>
      have hrank := Std.compare_eq_iff_eq.mp h
      exact .ok (Std.compare_eq_iff_eq.mpr (Binary.rank_add_congr hrank d))
  | decimal =>
      refine .ok (Decimal.compare_eq_iff_value.mpr ?_)
      rw [Decimal.value_add, Decimal.value_add, Decimal.compare_eq_iff_value.mp h]

end NumTy

/-! ## Accumulators -/

namespace Aggregate

/-- The same aggregate, or a sum from zero in the place of a sum. -/
inductive FromZero : Aggregate → Aggregate → Prop where
  | kept (a : Aggregate) : FromZero a a
  | sum (index : Nat) (t : NumTy) : FromZero (.sum index t) (.sum0 index t)

/-- What two aggregates have as their accumulators. That of a sum from zero is
zero for a null, and otherwise of the value of the sum. -/
inductive Tied : Aggregate → Aggregate → Operand → Operand → Prop where
  | kept (a : Aggregate) (v : Operand) : Tied a a v v
  | null (index : Nat) (t : NumTy) :
    Tied (.sum index t) (.sum0 index t) none (some (t.ty.wrap t.arith.zero))
  | value (index : Nat) {t : NumTy} {c c' : t.ty.Carrier} (h : t.Tied c c') :
    Tied (.sum index t) (.sum0 index t) (some (t.ty.wrap c)) (some (t.ty.wrap c'))

variable {a a' : Aggregate}

theorem tied_initial (h : FromZero a a') : Tied a a' a.initial a'.initial := by
  cases h with
  | kept => exact .kept a a.initial
  | sum index t => exact .null index t

/-- A fold over tied accumulators, where tied values have tied results. -/
theorem alike_fold {index : Nat} {t : NumTy} {acc acc' : Operand}
    (h : Tied (.sum index t) (.sum0 index t) acc acc') (row : Row) :
    Alike (Tied (.sum index t) (.sum0 index t)) (fold t.ty t.arith.add index acc row)
      (fold t.ty t.arith.add index acc' row) := by
  rw [fold, fold]
  refine (Alike.refl Eq.refl (column row index)).bind ?_
  rintro v _ rfl
  refine (Alike.refl Eq.refl (v.unwrap t.ty)).bind ?_
  rintro d _ rfl
  cases d with
  | none => exact .ok h
  | some d =>
      cases h with
      | null =>
          -- the value itself on the one side, and its sum with zero on the other
          rw [Operand.unwrap_wrap]
          have hsum := t.alike_zero_add d
          dsimp only [Operand.unwrap, Bind.bind, Except.bind]
          generalize t.arith.add t.arith.zero d = sum at hsum ⊢
          cases hsum with
          | ok hd => exact .ok (.value index hd)
      | value _ h =>
          rw [Operand.unwrap_wrap, Operand.unwrap_wrap]
          exact (NumTy.alike_add h d).bind fun hd => .ok (.value index hd)

/-- One more row for both. -/
theorem alike_add {v v' : Operand} (h : Tied a a' v v') (row : Row) :
    Alike (Tied a a') (a.add v row) (a'.add v' row) := by
  cases h with
  | kept => exact .refl (Tied.kept a) _
  | null index t => exact alike_fold (.null index t) row
  | value index h => exact alike_fold (.value index h) row

/-- The accumulators of two lists of aggregates, tied one by one. -/
inductive AllTied : List Aggregate → List Aggregate → Row → Row → Prop where
  | nil : AllTied [] [] [] []
  | cons {a a' : Aggregate} {v v' : Operand} {aggs aggs' : List Aggregate} {accs accs' : Row}
      (h : Tied a a' v v') (hs : AllTied aggs aggs' accs accs') :
    AllTied (a :: aggs) (a' :: aggs') (v :: accs) (v' :: accs')

variable {aggs aggs' : List Aggregate}

theorem allTied_initials (h : List.Forall₂ FromZero aggs aggs') :
    AllTied aggs aggs' (initials aggs) (initials aggs') := by
  induction h with
  | nil => exact .nil
  | cons h _ ih => exact .cons (tied_initial h) ih

theorem alike_addAll {accs accs' : Row} (h : AllTied aggs aggs' accs accs') (row : Row) :
    Alike (AllTied aggs aggs') (addAll aggs accs row) (addAll aggs' accs' row) := by
  induction h with
  | nil => exact .ok .nil
  | cons h _ ih =>
      rw [addAll, addAll, List.zip_cons_cons, List.zip_cons_cons, List.mapM_cons, List.mapM_cons]
      exact (alike_add h row).bind fun hv => ih.bind fun hvs => .ok (.cons hv hvs)

end Aggregate

/-! ## Lists side by side -/

/-- The members of two lists at a place, and the lists with others there. -/
theorem forall₂_at {α β : Type} {R : α → β → Prop} {xs : List α} {ys : List β}
    (h : List.Forall₂ R xs ys) (i : Nat) :
    Option.Rel R xs[i]? ys[i]? ∧ ∀ {x y}, R x y → List.Forall₂ R (xs.set i x) (ys.set i y) := by
  induction h generalizing i with
  | nil => exact ⟨.none, fun _ => .nil⟩
  | cons hxy h ih =>
      cases i with
      | zero => exact ⟨.some hxy, fun hnew => .cons hnew h⟩
      | succ i => exact ⟨(ih i).1, fun hnew => .cons hxy ((ih i).2 hnew)⟩

/-- The last members of two lists, and the lists without them. -/
theorem forall₂_last {α β : Type} {R : α → β → Prop} {xs : List α} {ys : List β}
    (h : List.Forall₂ R xs ys) :
    Option.Rel R xs.getLast? ys.getLast? ∧ List.Forall₂ R xs.dropLast ys.dropLast := by
  induction h with
  | nil => exact ⟨.none, .nil⟩
  | cons hxy h ih =>
      cases h with
      | nil => exact ⟨.some hxy, .nil⟩
      | cons hxy' h =>
          rw [List.getLast?_cons_cons, List.getLast?_cons_cons]
          exact ⟨ih.1, .cons hxy ih.2⟩

/-! ## Runs -/

/-- Plans whose calls go alike on related memories go alike for any calls. -/
theorem Plan.alike_run [KeyMap] {p q : Plan} {R : p.Memory → q.Memory → Prop}
    {Out : Option Row → Option Row → Prop}
    (hcall : ∀ {m n} (c : Call), R m n →
      Alike Out (p.call m c).1 (q.call n c).1 ∧ R (p.call m c).2 (q.call n c).2) :
    ∀ (calls : List Call) {m n}, R m n →
      List.Forall₂ (Alike Out) (p.run calls m).1 (q.run calls n).1
  | [], _, _, _ => .nil
  | c :: calls, _, _, h => by
      obtain ⟨hanswer, hmemory⟩ := hcall c h
      exact .cons hanswer (alike_run hcall calls hmemory)

section

open Aggregate

variable [KeyMap] {aggs aggs' : List Aggregate}

/-- The rows of two aggregations: the key is the same, the slots are tied. -/
inductive Aggregate.Emits (aggs aggs' : List Aggregate) : Option Row → Option Row → Prop where
  | nothing : Emits aggs aggs' none none
  | row (key : Row) {slots slots' : Row} (h : AllTied aggs aggs' slots slots') :
    Emits aggs aggs' (some (key ++ slots)) (some (key ++ slots'))

theorem alike_call_aggregate (h : List.Forall₂ FromZero aggs aggs') {cache cache' : Option Row}
    (hcache : Option.Rel (AllTied aggs aggs') cache cache') (c : Call) :
    let p := Plan.stage (.aggregate aggs)
    let p' := Plan.stage (.aggregate aggs')
    Alike (Emits aggs aggs') (p.call cache c).1 (p'.call cache' c).1 ∧
      Option.Rel (AllTied aggs aggs') (p.call cache c).2 (p'.call cache' c).2 := by
  intro p p'
  cases c with
  | put row =>
      have haccs : AllTied aggs aggs' (cache.getD (initials aggs))
          (cache'.getD (initials aggs')) := by
        cases hcache with
        | none => exact allTied_initials h
        | some haccs => exact haccs
      have hadd := alike_addAll haccs row
      rw [Plan.call, Plan.call, Plan.put_aggregate, Plan.put_aggregate]
      generalize addAll aggs (cache.getD (initials aggs)) row = x at hadd ⊢
      generalize addAll aggs' (cache'.getD (initials aggs')) row = x' at hadd ⊢
      cases hadd with
      | ok haccs => exact ⟨.ok .nothing, .some haccs⟩
      | error e => exact ⟨.error e, hcache⟩
  | get =>
      cases hcache with
      | none => exact ⟨.ok .nothing, .none⟩
      | some haccs => exact ⟨.ok (.row [] haccs), .none⟩

/-- Groups of one key. -/
structure Group.Tied (aggs aggs' : List Aggregate) (g g' : Group) : Prop where
  key : g'.key = g.key
  accs : AllTied aggs aggs' g.accs g'.accs

/-- Tied groups in the same slots. With one index, they are found and lost alike. -/
structure Groups.Tied (aggs aggs' : List Aggregate) (groups groups' : Groups) : Prop where
  index : groups'.index = groups.index
  slots : List.Forall₂ (Group.Tied aggs aggs') groups.slots groups'.slots

theorem alike_update {groups groups' : Groups} (h : groups.Tied aggs aggs' groups') (slot : Nat)
    (row : Row) :
    Alike (Groups.Tied aggs aggs') (groups.update aggs slot row)
      (groups'.update aggs' slot row) := by
  obtain ⟨hfound, hset⟩ := forall₂_at h.slots slot
  rw [Groups.update, Groups.update, ← h.slots.length_eq]
  generalize groups.slots[slot]? = g, groups'.slots[slot]? = g' at hfound
  cases hfound with
  | none => exact .error _
  | @some g g' hg =>
      refine (alike_addAll hg.accs row).bind fun haccs => .ok ⟨h.index, ?_⟩
      rw [hg.key]
      exact hset ⟨rfl, haccs⟩

theorem alike_push (h : List.Forall₂ FromZero aggs aggs') {groups groups' : Groups}
    (hgroups : groups.Tied aggs aggs' groups') (key row : Row) :
    Alike (Groups.Tied aggs aggs') (groups.push aggs key row) (groups'.push aggs' key row) := by
  refine (alike_addAll (allTied_initials h) row).bind fun haccs => .ok ⟨?_, ?_⟩
  · rw [hgroups.index, hgroups.slots.length_eq]
  · exact List.rel_append hgroups.slots (.cons ⟨rfl, haccs⟩ .nil)

theorem alike_call_groupBy (h : List.Forall₂ FromZero aggs aggs') (columns : List Nat)
    {groups groups' : Groups} (hgroups : groups.Tied aggs aggs' groups') (c : Call) :
    let p := Plan.stage (.groupBy columns aggs)
    let p' := Plan.stage (.groupBy columns aggs')
    Alike (Emits aggs aggs') (p.call groups c).1 (p'.call groups' c).1 ∧
      Groups.Tied aggs aggs' (p.call groups c).2 (p'.call groups' c).2 := by
  intro p p'
  cases c with
  | put row =>
      rw [Plan.call, Plan.call, Groups.put_groupBy, Groups.put_groupBy]
      cases Stage.groupKey columns row with
      | error e => exact ⟨.error e, hgroups⟩
      | ok key =>
          have hfold : Alike (Groups.Tied aggs aggs') (groups.fold aggs key row)
              (groups'.fold aggs' key row) := by
            rw [Groups.fold, Groups.fold, hgroups.index]
            split
            · exact alike_update hgroups _ row
            · exact alike_push h hgroups key row
          dsimp only
          generalize groups.fold aggs key row = x at hfold
          generalize groups'.fold aggs' key row = x' at hfold
          cases hfold with
          | ok hnext => exact ⟨.ok .nothing, hnext⟩
          | error e => exact ⟨.error e, hgroups⟩
  | get =>
      obtain ⟨hlast, hrest⟩ := forall₂_last hgroups.slots
      rw [Plan.call, Plan.call, Groups.get_groupBy, Groups.get_groupBy, Groups.pop, Groups.pop]
      generalize groups.slots.getLast? = g, groups'.slots.getLast? = g' at hlast
      cases hlast with
      | none => exact ⟨.ok .nothing, hgroups⟩
      | @some g g' hg =>
          refine ⟨?_, ⟨congrArg₂ KeyMap.remove hgroups.index hg.key, hrest⟩⟩
          change Alike (Emits aggs aggs') (.ok (some (g.key ++ g.accs)))
            (.ok (some (g'.key ++ g'.accs)))
          rw [hg.key]
          exact .ok (.row g.key hg.accs)

end

/-- Sums from zero in the place of sums, in an aggregation of all rows or of
groups, for any calls. The same rows fail with the same faults, and the same
groups come out at the same calls. Where a sum is null, the sum from zero is the
zero of the type, and everywhere else it is of the value of the sum. The last
part says what that makes of equality: the two are equal, except for decimals
whose scales differ by ten and whose digits lose a carry when equality
multiplies them out. -/
theorem sum0_of_sum [KeyMap] {aggs aggs' : List Aggregate}
    (h : List.Forall₂ Aggregate.FromZero aggs aggs') (columns : List Nat) (calls : List Call) :
    List.Forall₂ (Alike (Aggregate.Emits aggs aggs'))
        ((Plan.stage (.aggregate aggs)).run calls none).1
        ((Plan.stage (.aggregate aggs')).run calls none).1 ∧
      List.Forall₂ (Alike (Aggregate.Emits aggs aggs'))
        ((Plan.stage (.groupBy columns aggs)).run calls Groups.empty).1
        ((Plan.stage (.groupBy columns aggs')).run calls Groups.empty).1 ∧
      ∀ (t : NumTy) (c c' : t.ty.Carrier), t.Tied c c' →
        ((t.ty.wrap c').same (t.ty.wrap c) = true ↔ ¬(t.ty.wrap c').Apart (t.ty.wrap c)) := by
  refine ⟨Plan.alike_run (fun c hcache => alike_call_aggregate h hcache c) calls Option.Rel.none,
    Plan.alike_run (fun c hgroups => alike_call_groupBy h columns hgroups c) calls ⟨rfl, .nil⟩,
    fun _ _ _ => Scalar.same_eq_true_iff⟩

/-- A null, and then a row that both refuse. -/
theorem sum0_of_sum_overflow :
    let aggs : List Aggregate := [.countAll, .sum 0 .int32]
    let aggs' : List Aggregate := [.countAll, .sum0 0 .int32]
    let calls : List Call :=
      [.put [none], .get, .put [none], .put [some (.int32 2147483647)],
        .put [some (.int32 1)], .get]
    List.Forall₂ Aggregate.FromZero aggs aggs' ∧
      ((Plan.stage (.aggregate aggs)).run calls none).1 =
        [.ok none, .ok (some [some (.int64 1), none]), .ok none, .ok none,
          .error (.overflow .int32), .ok (some [some (.int64 2), some (.int32 2147483647)])] ∧
      List.Forall₂ (Alike (Aggregate.Emits aggs aggs'))
        ((Plan.stage (.aggregate aggs)).run calls none).1
        ((Plan.stage (.aggregate aggs')).run calls none).1 := by
  intro aggs aggs' calls
  have hswap : List.Forall₂ Aggregate.FromZero aggs aggs' :=
    .cons (.kept .countAll) (.cons (.sum 0 .int32) .nil)
  exact ⟨hswap, by decide, (sum0_of_sum hswap [0] calls).1⟩

/-- One decimal that ends in ten zeros, which a zero writes out. -/
theorem sum0_apart :
    let d : Decimal := ⟨7922816251533193472, -10⟩
    let d' : Decimal := ⟨79228162515331934720000000000, 0⟩
    let calls : List Call := [.put [some (.decimal d)], .get]
    ((Plan.stage (.aggregate [.sum 0 .decimal])).run calls none).1 =
        [.ok none, .ok (some [some (.decimal d)])] ∧
      ((Plan.stage (.aggregate [.sum0 0 .decimal])).run calls none).1 =
        [.ok none, .ok (some [some (.decimal d')])] ∧
      d'.compare d = .eq ∧ Operand.same (some (.decimal d')) (some (.decimal d)) = false := by
  intro d d' calls
  have hvalue : d'.compare d = .eq := by decide
  refine ⟨by decide, by decide, hvalue, ?_⟩
  refine Bool.eq_false_iff.mpr fun hsame => ?_
  refine (Decimal.same_eq_true_iff hvalue).mp hsame ?_
  exact Or.inl ⟨rfl, Decimal.slips_carry⟩

end RowCode
