import RowCode.Proofs.Operator.Folds
import RowCode.Proofs.Pipeline.Batch
import RowCode.Proofs.Step

/-!
# Relations and the order of operands

Operators compare plain values, while rows are sorted and grouped by an order
and an equality of operands. On values that are not NaN the two views agree: a
relation holds just if the order of operands says so, and the extremes take what
comes first or last in it. With a NaN there is no order for operators to see, so
every relation but `<>` fails (`relations_eq_order`).

`==` and `<>` do not look at the order but at equality. This makes no difference
but for decimals that are apart, which may be of one value and still be told
apart by both (`relations_apart`).
-/

namespace RowCode

namespace Relation

/-- Whether a relation holds of values in a given order. -/
def admits : Relation → Ordering → Bool
  | eq, o => o.isEq
  | ge, o => o.isGE
  | gt, o => o.isGT
  | le, o => o.isLE
  | lt, o => o.isLT
  | ne, o => o.isNe

/-- The relations that are decided by the order alone. -/
def Ordered (r : Relation) : Prop :=
  r ≠ eq ∧ r ≠ ne

end Relation

/-! ## Values that are not NaN -/

section Numbers

variable {t : ValueTy} {v w : t.Carrier}

theorem ValueTy.partialCompare_of_numbers (hv : (t.ty.wrap v).isNaN = false)
    (hw : (t.ty.wrap w).isNaN = false) :
    t.partialCompare v w = some ((t.ty.wrap v).compare (t.ty.wrap w)) := by
  rw [t.partialCompare_eq, hv, hw]
  rfl

theorem Scalar.same_iff {x y : Scalar} (h : ¬Apart x y) :
    x.same y = true ↔ x.compare y = .eq :=
  ⟨compare_of_same h, fun heq => (same_eq_true_iff heq).mpr h⟩

/-- The equality that operators see is the one of operands. -/
theorem ValueTy.equal_of_numbers (hv : (t.ty.wrap v).isNaN = false)
    (hw : (t.ty.wrap w).isNaN = false) :
    t.equal v w = (t.ty.wrap v).same (t.ty.wrap w) := by
  have hpartial := partialCompare_of_numbers hv hw
  -- no type but the decimals tells values of one place apart
  have hequal : ¬Scalar.Apart (t.ty.wrap v) (t.ty.wrap w) →
      (t.partialCompare v w == some .eq) = (t.ty.wrap v).same (t.ty.wrap w) := by
    intro hapart
    rw [hpartial, Bool.eq_iff_iff, beq_iff_eq, Option.some.injEq, Scalar.same_iff hapart]
  cases t with
  | decimal => rfl
  | _ => exact hequal id

theorem Relation.holds_of_numbers {r : Relation} (hr : r.Ordered)
    (hv : (t.ty.wrap v).isNaN = false) (hw : (t.ty.wrap w).isNaN = false) :
    r.holds t v w = r.admits ((t.ty.wrap v).compare (t.ty.wrap w)) := by
  have hpartial := ValueTy.partialCompare_of_numbers hv hw
  cases r with
  | eq => exact absurd rfl hr.1
  | ne => exact absurd rfl hr.2
  | _ => rw [holds, hpartial]; rfl

/-- Values that are not apart are equal just if they are in one place. -/
theorem Relation.holds_of_not_apart (r : Relation) (hv : (t.ty.wrap v).isNaN = false)
    (hw : (t.ty.wrap w).isNaN = false) (hapart : ¬Scalar.Apart (t.ty.wrap v) (t.ty.wrap w)) :
    r.holds t v w = r.admits ((t.ty.wrap v).compare (t.ty.wrap w)) := by
  have hsame : (t.ty.wrap v).same (t.ty.wrap w) =
      ((t.ty.wrap v).compare (t.ty.wrap w)).isEq := by
    rw [Bool.eq_iff_iff, Scalar.same_iff hapart, Ordering.isEq_iff_eq_eq]
  cases r with
  | eq => rw [holds, ValueTy.equal_of_numbers hv hw, hsame, admits]
  | ne =>
      rw [holds, ValueTy.equal_of_numbers hv hw, hsame, admits]
      cases (t.ty.wrap v).compare (t.ty.wrap w) <;> rfl
  | _ => exact holds_of_numbers ⟨by decide, by decide⟩ hv hw

/-- The extremes are the values that come first and last. -/
theorem Extreme.pick_of_numbers (e : Extreme) (hv : (t.ty.wrap v).isNaN = false)
    (hw : (t.ty.wrap w).isNaN = false) :
    e.pick t v w = if (e.compare (t.ty.wrap v) (t.ty.wrap w)).isLE then v else w := by
  have hswap : e.compare (t.ty.wrap w) (t.ty.wrap v) =
      (e.compare (t.ty.wrap v) (t.ty.wrap w)).swap := Std.OrientedCmp.eq_swap
  rw [pick_eq, hv, hw, if_neg (by decide), hswap]
  cases e.compare (t.ty.wrap v) (t.ty.wrap w) <;> rfl

end Numbers

/-! ## NaN -/

/-- With a NaN, the only relation that holds is `<>`. -/
theorem Relation.holds_of_isNaN {t : ValueTy} {v w : t.Carrier}
    (h : ((t.ty.wrap v).isNaN || (t.ty.wrap w).isNaN) = true) (r : Relation) :
    r.holds t v w = (r == ne) := by
  have hpartial : t.partialCompare v w = none := by
    rw [t.partialCompare_eq, if_pos h]
  have hnone : (t.partialCompare v w == some .eq) = false := by
    rw [hpartial]
    rfl
  have hequal : t.equal v w = false := by
    cases t with
    | decimal => cases h
    | _ => exact hnone
  cases r with
  | eq => exact hequal
  | ne => rw [holds, hequal]; rfl
  | _ => rw [holds, hpartial]; rfl

/-! ## Groups of two rows -/

theorem Row.same_singleton (x y : Scalar) : same [some x] [some y] = x.same y := by
  rw [same, same, Bool.and_true]
  rfl

theorem Row.compare_singleton (x y : Scalar) : compare [some x] [some y] = x.compare y := by
  rw [compare, compare, Ordering.then_eq]
  rfl

namespace Groups

variable [KeyMap]

/-- The groups after one row of one column, grouped by it. -/
def single (x : Scalar) : Groups :=
  ⟨KeyMap.insert [some x] 0 KeyMap.empty, [⟨[some x], []⟩]⟩

variable [LawfulKeyMap]

theorem fold_empty (x : Scalar) : empty.fold [] [some x] [some x] = .ok (single x) := by
  have hget : KeyMap.get? empty.index [some x] = none := by
    rw [Option.eq_none_iff_forall_ne_some]
    intro slot hget
    obtain ⟨g, hslot, -⟩ := Indexed.empty.of_get?_eq_some hget
    cases hslot
  rw [fold_of_none hget]
  rfl

theorem indexed_single (x : Scalar) : (single x).Indexed :=
  Indexed.empty.fold (fun _ hstored => nomatch hstored) (fold_empty x)

/-- An equal row of the value joins the group. -/
theorem fold_single_of_same {x y : Scalar} (hsame : x.same y = true) (hvalue : x.compare y = .eq) :
    (single x).fold [] [some y] [some y] = .ok (single x) := by
  have hstored : [some x] ∈ (single x).keys := List.mem_cons_self
  have hfound := (indexed_single x).get?_isSome hstored
    ((Row.same_singleton x y).trans hsame) ((Row.compare_singleton x y).trans hvalue)
  obtain ⟨slot, hget⟩ := Option.isSome_iff_exists.mp hfound
  obtain ⟨g, hslot, -⟩ := (indexed_single x).of_get?_eq_some hget
  obtain ⟨rfl, rfl⟩ : slot = 0 ∧ (⟨[some x], []⟩ : Group) = g := by
    simpa [single, List.getElem?_singleton] using hslot
  rw [fold_of_some hget hslot]
  rfl

/-- A row that is not equal opens a group of its own. -/
theorem fold_single_of_not_same {x y : Scalar} (h : x.same y = false) :
    ∃ index, (single x).fold [] [some y] [some y] =
      .ok ⟨index, [⟨[some x], []⟩, ⟨[some y], []⟩]⟩ := by
  have hget : KeyMap.get? (single x).index [some y] = none := by
    rw [Option.eq_none_iff_forall_ne_some]
    intro slot hget
    obtain ⟨g, hslot, hsame⟩ := (indexed_single x).of_get?_eq_some hget
    obtain rfl := List.mem_singleton.mp (List.mem_of_getElem? hslot)
    rw [Row.same_singleton, h] at hsame
    cases hsame
  exact ⟨_, fold_of_none hget⟩

end Groups

section

variable [KeyMap] [LawfulKeyMap] {x y : Scalar}

/-- Two rows of one column, grouped by it. -/
theorem Plan.outputs_pair {groups : Groups}
    (h : (Groups.single x).fold [] [some y] [some y] = .ok groups) :
    (stage (.groupBy [0] [])).outputs [[some x], [some y]] Groups.empty =
      groups.slots.reverse.map Group.row := by
  have hkey : ∀ z : Scalar, Stage.groupKey [0] [some z] = .ok [some z] := fun _ => rfl
  have hfirst : ((stage (.groupBy [0] [])).put [some x] Groups.empty).2 = Groups.single x := by
    rw [Groups.put_groupBy, hkey]
    dsimp only
    rw [Groups.fold_empty]
  have hsecond : ((stage (.groupBy [0] [])).put [some y] (Groups.single x)).2 = groups := by
    rw [Groups.put_groupBy, hkey]
    dsimp only
    rw [h]
  have hfeed : ((stage (.groupBy [0] [])).feed [[some x], [some y]] Groups.empty).2 = groups := by
    rw [← hsecond, ← hfirst]
    rfl
  rw [outputs, given_feed_groupBy, List.nil_append, hfeed,
    exhaust_groupBy groups.slots.reverse (List.reverse_reverse _).symm]

/-- Values that are told apart are in groups of their own. -/
theorem Plan.outputs_pair_of_not_same (h : x.same y = false) :
    (stage (.groupBy [0] [])).outputs [[some x], [some y]] Groups.empty =
      [[some y], [some x]] := by
  obtain ⟨index, hfold⟩ := Groups.fold_single_of_not_same h
  rw [outputs_pair hfold]
  rfl

/-- Equal values of one place share a group. -/
theorem Plan.outputs_pair_of_same (hsame : x.same y = true) (hvalue : x.compare y = .eq) :
    (stage (.groupBy [0] [])).outputs [[some x], [some y]] Groups.empty = [[some x]] := by
  rw [outputs_pair (Groups.fold_single_of_same hsame hvalue)]
  rfl

/-- Values that are not apart share a group just if they are equal. -/
theorem Plan.outputs_pair_of_not_apart (h : ¬Scalar.Apart x y) :
    (stage (.groupBy [0] [])).outputs [[some x], [some y]] Groups.empty =
      if x.same y then [[some x]] else [[some y], [some x]] := by
  cases hsame : x.same y with
  | true => exact outputs_pair_of_same hsame ((Scalar.same_iff h).mp hsame)
  | false => exact outputs_pair_of_not_same hsame

end

/-! ## Steps -/

section Steps

variable {t : ValueTy} (v w : t.Carrier) (row : Option Row) (rest : Stack)

theorem Relation.step_eq (r : Relation) :
    (Instr.op (.relation r t)).step row (some (t.ty.wrap w) :: some (t.ty.wrap v) :: rest) =
      .ok (some (.bool (r.holds t v w)) :: rest) :=
  Kernel.apply_strict2 _ v w rest

theorem Extreme.step_eq (e : Extreme) :
    (Instr.op (.extreme e t)).step row (some (t.ty.wrap w) :: some (t.ty.wrap v) :: rest) =
      .ok (some (t.ty.wrap (e.pick t v w)) :: rest) :=
  Kernel.apply_strict2 _ v w rest

end Steps

/-- Relations, extremes and groups of two values of a type. Between values that
are not NaN, `==` is the equality of operands and the other relations but `<>`
follow their order, as do the extremes. Unless the values are apart, so do `==`
and `<>`, and `==` says whether the values fall into one group. Values that are
not equal never do. -/
theorem relations_eq_order [KeyMap] [LawfulKeyMap] {t : ValueTy} (v w : t.Carrier)
    (row : Option Row) (rest : Stack) :
    let x := t.ty.wrap v
    let y := t.ty.wrap w
    let answer (r : Relation) := (Instr.op (.relation r t)).step row (some y :: some x :: rest)
    let taken (e : Extreme) := (Instr.op (.extreme e t)).step row (some y :: some x :: rest)
    let groups := (Plan.stage (.groupBy [0] [])).outputs [[some x], [some y]] Groups.empty
    (x.isNaN = false → y.isNaN = false →
      answer .eq = .ok (some (.bool (x.same y)) :: rest) ∧
      answer .ne = .ok (some (.bool (!x.same y)) :: rest) ∧
      (∀ r : Relation, r.Ordered →
        answer r = .ok (some (.bool (r.admits (x.compare y))) :: rest)) ∧
      (¬Scalar.Apart x y →
        (∀ r : Relation, answer r = .ok (some (.bool (r.admits (x.compare y))) :: rest)) ∧
        groups = if x.same y then [[some x]] else [[some y], [some x]]) ∧
      (x.same y = false → groups = [[some y], [some x]]) ∧
      (Scalar.Apart x y → x.compare y = .eq → x.same y = false) ∧
      taken .min = .ok (some (if (x.compare y).isLE then x else y) :: rest) ∧
      taken .max = .ok (some (if (x.compare y).isGE then x else y) :: rest)) ∧
    ((x.isNaN || y.isNaN) = true → ∀ r : Relation,
      answer r = .ok (some (.bool (r == .ne)) :: rest)) := by
  intro x y answer taken groups
  have hanswer : ∀ r, answer r = .ok (some (.bool (r.holds t v w)) :: rest) :=
    fun r => r.step_eq v w row rest
  have htaken : ∀ e, taken e = .ok (some (t.ty.wrap (e.pick t v w)) :: rest) :=
    fun e => e.step_eq v w row rest
  refine ⟨fun hx hy => ⟨?_, ?_, fun r hr => ?_, fun hapart => ⟨fun r => ?_, ?_⟩,
    Plan.outputs_pair_of_not_same, fun hapart heq => ?_, ?_, ?_⟩, fun hnan r => ?_⟩
  · rw [hanswer, Relation.holds, ValueTy.equal_of_numbers hx hy]
  · rw [hanswer, Relation.holds, ValueTy.equal_of_numbers hx hy]
  · rw [hanswer, Relation.holds_of_numbers hr hx hy]
  · rw [hanswer, r.holds_of_not_apart hx hy hapart]
  · exact Plan.outputs_pair_of_not_apart hapart
  · rw [Bool.eq_false_iff, ne_eq, Scalar.same_eq_true_iff heq]
    exact not_not_intro hapart
  · rw [htaken, Extreme.pick_of_numbers .min hx hy, apply_ite t.ty.wrap]
    rfl
  · have hswap : y.compare x = (x.compare y).swap := Std.OrientedCmp.eq_swap
    rw [htaken, Extreme.pick_of_numbers .max hx hy, apply_ite t.ty.wrap, Extreme.compare, hswap,
      Ordering.isLE_swap]
  · rw [hanswer, Relation.holds_of_isNaN hnan]

theorem relations_eq_order_int32 :
    let groups := (Plan.stage (.groupBy [0] [])).outputs
      [[some (.int32 1)], [some (.int32 2)]] Groups.empty
    (Instr.op (.relation .le .int32)).step none [some (.int32 2), some (.int32 1)] =
        .ok [some (.bool true)] ∧
      groups = [[some (.int32 2)], [some (.int32 1)]] := by
  intro groups
  obtain ⟨hnumbers, -⟩ := relations_eq_order (t := .int32) 1 2 none []
  obtain ⟨-, -, hordered, -, hgroups, -⟩ := hnumbers rfl rfl
  exact ⟨hordered .le ⟨by decide, by decide⟩, hgroups rfl⟩

/-- Two decimals of one value that are neither equal nor ordered. The order of
operands has one answer for them, and `<>` has the other. -/
theorem relations_apart :
    let d : Decimal := ⟨7922816251533193472, 0⟩
    let d' : Decimal := ⟨79228162515331934720000000000, 10⟩
    let answer (r : Relation) :=
      (Instr.op (.relation r .decimal)).step none [some (.decimal d'), some (.decimal d)]
    (Scalar.decimal d).compare (.decimal d') = .eq ∧
      answer .eq = .ok [some (.bool false)] ∧ answer .ne = .ok [some (.bool true)] ∧
        answer .lt = .ok [some (.bool false)] ∧ answer .gt = .ok [some (.bool false)] := by
  intro d d' answer
  have hanswer : ∀ r : Relation, answer r = .ok [some (.bool (r.holds .decimal d d'))] :=
    fun r => Relation.step_eq (t := .decimal) d d' none [] r
  have hcompare : d.compare d' = .eq := by decide
  have hsame : d.same d' = false := by
    rw [Bool.eq_false_iff, ne_eq, Decimal.same_eq_true_iff hcompare]
    exact not_not_intro (Or.inr ⟨rfl, Decimal.slips_carry⟩)
  have hequal : ValueTy.decimal.equal d d' = false := hsame
  have hpartial : ValueTy.decimal.partialCompare d d' = some .eq := congrArg some hcompare
  refine ⟨hcompare, ?_, ?_, ?_, ?_⟩ <;> simp [hanswer, Relation.holds, hequal, hpartial]

end RowCode
