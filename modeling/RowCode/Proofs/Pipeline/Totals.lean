import Mathlib.Data.List.Forall2
import RowCode.Hash.Table
import RowCode.Proofs.Operator.Folds
import RowCode.Proofs.Pipeline.Drain

/-!
# What aggregates give

An aggregation over rows put in one after the other, some of which it may
refuse. `Aggregate.Refuses` tells the rows that an aggregate fails on from the
rows that were taken before, and `Aggregate.Gives` what it gives over those that
were taken: a number of rows, or what the values in a column come to by `Folds`.

The invariant is that every accumulator is what its aggregate gives over the
rows taken so far. One more row either leaves it so for the rows with that one
behind them, or is refused by an aggregate and changes nothing
(`Aggregate.settles_addAll`). So rows that are refused are no matter to those
that come later, and what comes out is told by the rows taken alone.
-/

namespace RowCode

namespace Aggregate

/-! ## Columns -/

/-- The value that a row has in a column of a type. Neither null nor a value of
another type is one. -/
def value? (t : Ty) (index : Nat) (row : Row) : Option t.Carrier :=
  row[index]?.join.bind (Scalar.carried? t)

/-- The values in a column, one row after the other. -/
def values (t : Ty) (index : Nat) (rows : List Row) : List t.Carrier :=
  rows.filterMap (value? t index)

/-- The column holds a value, but of another type. -/
def Mistyped (t : Ty) (index : Nat) (row : Row) : Prop :=
  ∃ v, row[index]? = some (some v) ∧ v.ty ≠ t

theorem values_concat (t : Ty) (index : Nat) (rows : List Row) (row : Row) :
    values t index (rows ++ [row]) = values t index rows ++ (value? t index row).toList := by
  rw [values, values, List.filterMap_append]
  cases hvalue : value? t index row <;> simp [hvalue]

theorem settles_column (index : Nat) (row : Row) :
    Settles (row.length ≤ index) (fun v => row[index]? = some v) (column row index) := by
  rw [column]
  cases hcolumn : row[index]? with
  | none => exact List.getElem?_eq_none_iff.mp hcolumn
  | some v =>
      obtain ⟨hlt, -⟩ := List.getElem?_eq_some_iff.mp hcolumn
      exact ⟨Nat.not_le.mpr hlt, rfl⟩

theorem settles_unwrap {t : Ty} {index : Nat} {row : Row} {v : Operand}
    (hv : row[index]? = some v) :
    Settles (Mistyped t index row) (fun x => x = value? t index row) (v.unwrap t) := by
  rw [value?, hv]
  cases v with
  | none => exact ⟨by simp [Mistyped, hv], rfl⟩
  | some s =>
      rw [Operand.unwrap]
      cases hs : s.carried? t with
      | none =>
          refine ⟨s, hv, ?_⟩
          rintro rfl
          cases s <;> cases hs
      | some x =>
          refine ⟨?_, hs.symm⟩
          rintro ⟨s', hs', hne⟩
          obtain rfl : s = s' := Option.some.inj (Option.some.inj (hv.symm.trans hs'))
          exact hne (by rw [Scalar.carried?_eq_some_iff.mp hs, Ty.ty_wrap])

/-! ## One accumulator -/

/-- An operand is null if there are no values, and otherwise what they come to. -/
inductive Comes (t : Ty) (IsTotal : List t.Carrier → t.Carrier → Prop) :
    List t.Carrier → Operand → Prop where
  | null : Comes t IsTotal [] none
  | value {vs : List t.Carrier} {x : t.Carrier} (hne : vs ≠ []) (h : IsTotal vs x) :
    Comes t IsTotal vs (some (t.wrap x))

theorem settles_fold {t : Ty} {f : t.Carrier → t.Carrier → Except Fault t.Carrier}
    {IsTotal : List t.Carrier → t.Carrier → Prop} {Exceeds : List t.Carrier → Prop}
    (hf : Folds f IsTotal Exceeds) {vs : List t.Carrier} {acc : Operand}
    (hacc : Comes t IsTotal vs acc) (index : Nat) (row : Row) :
    Settles (row.length ≤ index ∨ Mistyped t index row ∨
        Exceeds (vs ++ (value? t index row).toList))
      (Comes t IsTotal (vs ++ (value? t index row).toList)) (fold t f index acc row) := by
  refine (settles_column index row).bind fun v hv => ?_
  refine (settles_unwrap hv).bind fun x hx => ?_
  rw [← hx]
  cases x with
  | none =>
      -- nothing is folded, and what was within the type before still is
      rw [Option.toList_none, List.append_nil]
      refine ⟨?_, hacc⟩
      cases hacc with
      | null => exact hf.nil
      | value _ h => exact hf.within _ _ h
  | some x =>
      rw [Option.toList_some]
      cases hacc with
      | null => exact ⟨hf.within _ _ (hf.single x), .value (List.cons_ne_nil x []) (hf.single x)⟩
      | value hne h =>
          rw [Operand.unwrap_wrap]
          exact (hf.step _ _ x h).map fun s hs =>
            .value (List.append_ne_nil_of_left_ne_nil hne _) hs

/-- An operand is the number, as long as its type has that number. -/
def Counts (n : Nat) (v : Operand) : Prop :=
  ∃ c : Int64, v = some (.int64 c) ∧ (n < 2 ^ 63 → c.toInt = n)

theorem settles_increment {n : Nat} {acc : Operand} (hacc : Counts n acc) :
    Settles False (Counts (n + 1)) (increment acc) := by
  obtain ⟨c, rfl, hc⟩ := hacc
  refine ⟨id, c + 1, rfl, ?_⟩
  intro hn
  rw [Int64.toInt_add, hc (by omega)]
  exact Int.bmod_eq_of_le (by simp; omega) (by simp; omega)

/-! ## Each aggregate -/

/-- Whether an aggregate fails on a row, from the rows that it has taken. -/
def Refuses (seen : List Row) (row : Row) : Aggregate → Prop
  | countAll => False
  | count index _ => row.length ≤ index
  | sum index t =>
    row.length ≤ index ∨ Mistyped t.ty index row ∨
      t.Exceeds (values t.ty index (seen ++ [row]))
  | sum0 index t =>
    row.length ≤ index ∨ Mistyped t.ty index row ∨
      t.Exceeds (values t.ty index (seen ++ [row]))
  | extreme _ index t => row.length ≤ index ∨ Mistyped t.ty index row

/-- What an aggregate gives over the rows that it has taken. -/
def Gives (rows : List Row) : Aggregate → Operand → Prop
  | countAll => Counts rows.length
  | count index _ => Counts (rows.countP fun row => row[index]?.join.isSome)
  | sum index t => Comes t.ty t.IsSum (values t.ty index rows)
  | sum0 index t => Comes t.ty t.IsSum (t.arith.zero :: values t.ty index rows)
  | extreme e index t => Comes t.ty (e.IsOf t) (values t.ty index rows)

theorem gives_initial : ∀ a : Aggregate, a.Gives [] a.initial
  | countAll => ⟨0, rfl, fun _ => rfl⟩
  | count _ _ => ⟨0, rfl, fun _ => rfl⟩
  | sum _ _ => .null
  | sum0 _ t => .value (List.cons_ne_nil _ _) (t.folds_add.single _)
  | extreme _ _ _ => .null

/-- One more row for one accumulator. -/
theorem settles_add {seen : List Row} {acc : Operand} (row : Row) : ∀ {a : Aggregate},
    a.Gives seen acc → Settles (a.Refuses seen row) (a.Gives (seen ++ [row])) (a.add acc row)
  | countAll, hacc => by
      rw [Gives, List.length_append]
      exact settles_increment hacc
  | count index t, hacc => by
      have hread : Settles (row.length ≤ index ∨ False) (Gives (seen ++ [row]) (count index t))
          ((count index t).add acc row) := by
        refine (settles_column index row).bind fun v hv => ?_
        rw [Gives, List.countP_append, List.countP_singleton, hv]
        cases v with
        | none => exact ⟨id, hacc⟩
        | some v => exact settles_increment hacc
      exact hread.imp (or_iff_left id) fun _ => id
  | sum index t, hacc => by
      rw [Refuses, Gives, values_concat]
      exact settles_fold t.folds_add hacc index row
  | sum0 index t, hacc => by
      rw [Refuses, Gives, values_concat, ← t.exceeds_zero_cons]
      exact settles_fold t.folds_add hacc index row
  | extreme e index t, hacc => by
      rw [Refuses, Gives, values_concat]
      refine (settles_fold Extreme.folds_pick hacc index row).imp ?_ fun _ => id
      rw [or_false]

/-! ## All aggregates of a stage -/

theorem gives_initials : ∀ aggs : List Aggregate,
    List.Forall₂ (Gives []) aggs (initials aggs)
  | [] => .nil
  | a :: aggs => .cons a.gives_initial (gives_initials aggs)

/-- One more row for all accumulators: if one aggregate refuses it, it is not
taken by any. -/
theorem settles_addAll {seen : List Row} (row : Row) {aggs : List Aggregate} {accs : Row}
    (hacc : List.Forall₂ (Gives seen) aggs accs) :
    Settles (∃ a ∈ aggs, a.Refuses seen row) (List.Forall₂ (Gives (seen ++ [row])) aggs)
      (addAll aggs accs row) := by
  induction hacc with
  | nil => exact ⟨by simp, .nil⟩
  | @cons a acc aggs accs ha _ ih =>
      rw [addAll, List.zip_cons_cons, List.mapM_cons]
      have hboth := (settles_add row ha).bind fun v hv =>
        ih.map fun vs hvs => List.Forall₂.cons hv hvs
      exact hboth.imp (by simp) fun _ => id

end Aggregate

/-! ## Rows put in one after the other -/

namespace Plan

/-- The rows that do not fail when rows are put in one after the other. -/
def taken [KeyMap] (p : Plan) : List Row → p.Memory → List Row
  | [], _ => []
  | row :: rows, m =>
    let (answer, m) := p.put row m
    if answer.isOk then row :: taken p rows m else taken p rows m

end Plan

namespace Aggregate

/-- What an aggregation keeps when it has taken rows. -/
inductive Keeps (aggs : List Aggregate) : List Row → Option Row → Prop where
  | nothing : Keeps aggs [] none
  | slots {seen : List Row} {accs : Row} (hne : seen ≠ [])
      (h : List.Forall₂ (Gives seen) aggs accs) : Keeps aggs seen (some accs)

variable {aggs : List Aggregate} {seen : List Row} {cache : Option Row}

theorem Keeps.accumulators (h : Keeps aggs seen cache) :
    List.Forall₂ (Gives seen) aggs (cache.getD (initials aggs)) := by
  cases h with
  | nothing => exact gives_initials aggs
  | slots _ h => exact h

variable [KeyMap]

theorem Keeps.put_cases (h : Keeps aggs seen cache) (row : Row) :
    (∃ e, (Plan.stage (.aggregate aggs)).put row cache = (.error e, cache) ∧
        ∃ a ∈ aggs, a.Refuses seen row) ∨
      ∃ cache', (Plan.stage (.aggregate aggs)).put row cache = (.ok none, cache') ∧
        (¬∃ a ∈ aggs, a.Refuses seen row) ∧ Keeps aggs (seen ++ [row]) cache' := by
  have hadd := settles_addAll row h.accumulators
  rw [Plan.put_aggregate]
  cases haccs : addAll aggs (cache.getD (initials aggs)) row with
  | ok accs =>
      rw [haccs] at hadd
      exact Or.inr ⟨some accs, rfl, hadd.1, .slots (by simp) hadd.2⟩
  | error e =>
      rw [haccs] at hadd
      exact Or.inl ⟨e, rfl, hadd⟩

theorem Keeps.feed {rows : List Row} (h : Keeps aggs seen cache) :
    Keeps aggs (seen ++ (Plan.stage (.aggregate aggs)).taken rows cache)
      ((Plan.stage (.aggregate aggs)).feed rows cache).2 := by
  induction rows generalizing seen cache with
  | nil =>
      rw [Plan.taken, List.append_nil]
      exact h
  | cons row rows ih =>
      rw [Plan.taken, Plan.feed]
      rcases h.put_cases row with ⟨e, hput, -⟩ | ⟨cache', hput, -, hkeeps⟩
      · -- a row that fails is missing among the rows taken and in what is kept
        rw [hput]
        exact ih h
      · rw [hput]
        have htail := ih hkeeps
        rw [List.append_assoc] at htail
        exact htail

/-- Nothing comes out if no row was taken, and the accumulators otherwise. -/
theorem Keeps.get (h : Keeps aggs seen cache) :
    (seen = [] → ((Plan.stage (.aggregate aggs)).get cache).1 = .ok none) ∧
      (seen ≠ [] → ∃ accs, ((Plan.stage (.aggregate aggs)).get cache).1 = .ok (some accs) ∧
        List.Forall₂ (Gives seen) aggs accs) := by
  cases h with
  | nothing => exact ⟨fun _ => rfl, fun hne => absurd rfl hne⟩
  | slots hne h => exact ⟨fun hnil => absurd hnil hne, fun _ => ⟨_, rfl, h⟩⟩

end Aggregate

/-- An aggregation over rows put in one after the other. A row fails just if
some aggregate refuses it: because a column is missing, because the column
holds a value of another type, or because the exact sum of integers would leave
the type. A row that fails changes nothing. Nothing comes out if no row was
taken; otherwise each aggregate gives what the rows that were taken come to. -/
theorem aggregate_totals [KeyMap] (aggs : List Aggregate) (rows : List Row) :
    let p := Plan.stage (.aggregate aggs)
    let kept := (p.feed rows p.empty).2
    let taken := p.taken rows p.empty
    (∀ row, ((p.put row kept).1.isOk = false ↔ ∃ a ∈ aggs, a.Refuses taken row) ∧
        ((p.put row kept).1.isOk = false → (p.put row kept).2 = kept)) ∧
      (taken = [] → (p.get kept).1 = .ok none) ∧
      (taken ≠ [] → ∃ accs, (p.get kept).1 = .ok (some accs) ∧
        List.Forall₂ (fun a v => a.Gives taken v) aggs accs) := by
  intro p kept taken
  have hkeeps : Aggregate.Keeps aggs taken kept := Aggregate.Keeps.nothing.feed
  refine ⟨?_, hkeeps.get⟩
  intro row
  rcases hkeeps.put_cases row with ⟨e, hput, hrefused⟩ | ⟨cache, hput, hfree, -⟩
  · rw [hput]
    exact ⟨iff_of_true rfl hrefused, fun _ => rfl⟩
  · rw [hput]
    exact ⟨iff_of_false Bool.noConfusion hfree, fun hfailed => Bool.noConfusion hfailed⟩

/-- The second row is refused by the sum, and so it is not counted either. -/
example :
    ((Plan.stage (.aggregate [.countAll, .sum 0 .int32, .extreme .max 0 .int32])).run
      [.put [some (.int32 2)], .put [some (.int32 2147483647)], .put [none], .get] none).1 =
      [.ok none, .error (.overflow .int32), .ok none,
        .ok (some [some (.int64 2), some (.int32 2), some (.int32 2)])] := by
  decide

end RowCode
