import RowCode.Operator.Arithmetic
import RowCode.Operator.Comparison
import RowCode.Proofs.Operand.Order

/-!
# What values come to

Addition and the extremes as they are used to fold a list of values: the first
value is taken as it stands, and each later one is folded into what there is.
`Folds` relates a function of two values to what the whole list comes to, one
step at a time, and there is one such law for the sums of each type and one for
the extremes. Since sums may fail, a law says when: `Settles` judges a
computation by its failure as much as by its result.

Sums of integers and of decimals are exact, and a sum of integers comes to
nothing if it leaves the type. Sums of floats are rounded at every step, so of
those there is no more to say than the order in which they are formed.

Extremes compare by the order of operands as long as no NaN is met. A NaN is
never beyond anything and nothing is beyond a NaN. One that comes first is
therefore kept for good, and all others are passed over (`Extreme.IsOf`).
-/

namespace RowCode

/-! ## Computations that settle -/

/-- A computation that fails in the given case only, and otherwise has a result
of the given kind. -/
def Settles {α : Type} (refused : Prop) (good : α → Prop) : Except Fault α → Prop
  | .ok v => ¬refused ∧ good v
  | .error _ => refused

namespace Settles

variable {α : Type} {refused refused' : Prop} {good good' : α → Prop} {x : Except Fault α}

theorem imp (h : Settles refused good x) (hrefused : refused ↔ refused')
    (hgood : ∀ v, good v → good' v) : Settles refused' good' x := by
  cases x with
  | ok v => exact ⟨mt hrefused.mpr h.1, hgood v h.2⟩
  | error e => exact hrefused.mp h

/-- A computation with another behind it. -/
theorem bind {β : Type} {later : Prop} {last : β → Prop} {f : α → Except Fault β}
    (h : Settles refused good x) (hf : ∀ v, good v → Settles later last (f v)) :
    Settles (refused ∨ later) last (x >>= f) := by
  cases x with
  | ok v =>
      obtain ⟨hnot, hv⟩ := h
      exact (hf v hv).imp (by simp [hnot]) fun _ => id
  | error e => exact Or.inl h

/-- A computation whose result is put to use. -/
theorem map {β : Type} {last : β → Prop} {f : α → β} (h : Settles refused good x)
    (hf : ∀ v, good v → last (f v)) : Settles refused last (x >>= fun v => .ok (f v)) := by
  cases x with
  | ok v => exact ⟨h.1, hf v h.2⟩
  | error e => exact h

end Settles

/-! ## Folding -/

/-- What lists of values come to under a function of two values: the value
alone, or what the function makes of the values before and the last one. It
fails if together they exceed the type. -/
structure Folds {α : Type} (f : α → α → Except Fault α) (IsTotal : List α → α → Prop)
    (Exceeds : List α → Prop) : Prop where
  nil : ¬Exceeds []
  single : ∀ v, IsTotal [v] v
  within : ∀ vs acc, IsTotal vs acc → ¬Exceeds vs
  step : ∀ vs acc v, IsTotal vs acc →
    Settles (Exceeds (vs ++ [v])) (IsTotal (vs ++ [v])) (f acc v)

/-! ## Sums -/

namespace Window

variable {α : Type}

theorem contains_iff {w : Window α} {n : Int} :
    w.contains n = true ↔ w.least ≤ n ∧ n ≤ w.greatest := by
  simp [contains]

/-- The integers of the window are those of the type, each its own member. -/
structure Faithful (w : Window α) : Prop where
  toInt_ofInt : ∀ n, w.contains n = true → w.toInt (w.ofInt n) = n
  contains_toInt : ∀ a, w.contains (w.toInt a) = true
  contains_zero : w.contains 0 = true

theorem faithful_int32 : int32.Faithful where
  toInt_ofInt n h := by
    obtain ⟨hle, hge⟩ := contains_iff.mp h
    exact Int32.toInt_ofInt_of_le hle (Int.lt_of_le_sub_one hge)
  contains_toInt a := contains_iff.mpr ⟨a.le_toInt, Int.le_sub_one_of_lt a.toInt_lt⟩
  contains_zero := by decide

theorem faithful_int64 : int64.Faithful where
  toInt_ofInt n h := by
    obtain ⟨hle, hge⟩ := contains_iff.mp h
    exact Int64.toInt_ofInt_of_le hle (Int.lt_of_le_sub_one hge)
  contains_toInt a := contains_iff.mpr ⟨a.le_toInt, Int.le_sub_one_of_lt a.toInt_lt⟩
  contains_zero := by decide

variable (w : Window α)

/-- The exact sum. -/
def IsSum (vs : List α) (s : α) : Prop :=
  w.toInt s = (vs.map w.toInt).sum

/-- The exact sum is not in the window. -/
def Exceeds (vs : List α) : Prop :=
  w.contains (vs.map w.toInt).sum = false

variable {w}

theorem Faithful.folds (h : w.Faithful) : Folds (Arith.ofWindow w).add w.IsSum w.Exceeds where
  nil := by
    rw [Exceeds, List.map_nil, List.sum_nil, h.contains_zero]
    exact Bool.noConfusion
  single v := by simp [IsSum]
  within vs acc hsum := by
    rw [Exceeds, ← hsum, h.contains_toInt]
    exact Bool.noConfusion
  step vs acc v hsum := by
    have hsucc : ((vs ++ [v]).map w.toInt).sum = w.toInt acc + w.toInt v := by
      simp [hsum.symm]
    simp only [Arith.ofWindow, exact, Exceeds, hsucc]
    cases hin : w.contains (w.toInt acc + w.toInt v) with
    | true => exact ⟨Bool.noConfusion, (h.toInt_ofInt _ hin).trans hsucc.symm⟩
    | false => exact rfl

/-- A zero in front is of no account to the limits. -/
theorem Faithful.exceeds_zero_cons (h : w.Faithful) (vs : List α) :
    w.Exceeds (w.ofInt 0 :: vs) ↔ w.Exceeds vs := by
  rw [Exceeds, Exceeds, List.map_cons, List.sum_cons, h.toInt_ofInt 0 h.contains_zero,
    Int.zero_add]

end Window

/-- Floats added one after the other. -/
def Binary.IsSum {f : Format} (xs : List (Binary f)) (s : Binary f) : Prop :=
  ∃ x rest, xs = x :: rest ∧ s = rest.foldl add x

theorem Binary.folds_add (f : Format) : Folds (Arith.binary f).add IsSum fun _ => False where
  nil := id
  single v := ⟨v, [], rfl, rfl⟩
  within _ _ _ := id
  step vs acc v hsum := by
    obtain ⟨x, rest, rfl, rfl⟩ := hsum
    exact ⟨id, x, rest ++ [v], rfl, by rw [List.foldl_append]; rfl⟩

/-- The sum by value. -/
def Decimal.IsSum (ds : List Decimal) (s : Decimal) : Prop :=
  s.value = (ds.map value).sum

theorem Decimal.folds_add : Folds Arith.decimal.add IsSum fun _ => False where
  nil := id
  single v := by simp [IsSum]
  within _ _ _ := id
  step vs acc v hsum := by
    refine ⟨id, ?_⟩
    rw [IsSum, value_add, hsum]
    simp

namespace NumTy

/-- What a list of numbers comes to when they are added. -/
def IsSum : (t : NumTy) → List t.Carrier → t.Carrier → Prop
  | int32 => Window.int32.IsSum
  | int64 => Window.int64.IsSum
  | float32 => Binary.IsSum
  | float64 => Binary.IsSum
  | decimal => Decimal.IsSum

/-- Integers whose exact sum is not in their type. -/
def Exceeds : (t : NumTy) → List t.Carrier → Prop
  | int32 => Window.int32.Exceeds
  | int64 => Window.int64.Exceeds
  | float32 => fun _ => False
  | float64 => fun _ => False
  | decimal => fun _ => False

theorem folds_add : ∀ t : NumTy, Folds t.arith.add t.IsSum t.Exceeds
  | int32 => Window.faithful_int32.folds
  | int64 => Window.faithful_int64.folds
  | float32 => Binary.folds_add _
  | float64 => Binary.folds_add _
  | decimal => Decimal.folds_add

theorem exceeds_zero_cons : ∀ (t : NumTy) (vs : List t.Carrier),
    t.Exceeds (t.arith.zero :: vs) ↔ t.Exceeds vs
  | int32, vs => Window.faithful_int32.exceeds_zero_cons vs
  | int64, vs => Window.faithful_int64.exceeds_zero_cons vs
  | float32, _ => Iff.rfl
  | float64, _ => Iff.rfl
  | decimal, _ => Iff.rfl

end NumTy

/-! ## Extremes -/

namespace Scalar

def isNaN : Scalar → Bool
  | float32 x => x.isNaN
  | float64 x => x.isNaN
  | _ => false

end Scalar

/-- Operators see the order of operands, but no order with a NaN. -/
theorem ValueTy.partialCompare_eq : ∀ (t : ValueTy) (v w : t.Carrier),
    t.partialCompare v w =
      if (t.ty.wrap v).isNaN || (t.ty.wrap w).isNaN then none
      else some ((t.ty.wrap v).compare (t.ty.wrap w))
  | int32, _, _ => rfl
  | int64, _, _ => rfl
  | bool, _, _ => rfl
  | float32, _, _ => rfl
  | float64, _, _ => rfl
  | decimal, _, _ => rfl
  | string, _, _ => rfl

def ValueTy.startsWithNaN (t : ValueTy) (vs : List t.Carrier) : Bool :=
  vs.head?.any fun v => (t.ty.wrap v).isNaN

namespace Extreme

/-- The order in which the extreme comes first. -/
def compare : Extreme → Scalar → Scalar → Ordering
  | min, v, w => v.compare w
  | max, v, w => w.compare v

instance (e : Extreme) : Std.TransCmp e.compare :=
  match e with
  | min => inferInstanceAs (Std.TransCmp Scalar.compare)
  | max => inferInstanceAs (Std.TransCmp fun v w => Scalar.compare w v)

theorem isLE_compare_self : ∀ (e : Extreme) (v : Scalar), (e.compare v v).isLE
  | min, v => by rw [compare, v.compare_self]; rfl
  | max, v => by rw [compare, v.compare_self]; rfl

/-- What does not come first comes no earlier than the other. -/
theorem isLE_of_not_lt {e : Extreme} {v w : Scalar} (h : e.compare v w ≠ .lt) :
    (e.compare w v).isLE := by
  have hswap : e.compare w v = (e.compare v w).swap := Std.OrientedCmp.eq_swap
  rw [hswap]
  cases hcompare : e.compare v w with
  | lt => exact absurd hcompare h
  | eq => rfl
  | gt => rfl

variable (e : Extreme) (t : ValueTy)

theorem pick_eq (acc v : t.Carrier) :
    e.pick t acc v =
      if (t.ty.wrap acc).isNaN || (t.ty.wrap v).isNaN then acc
      else if (e.compare (t.ty.wrap v) (t.ty.wrap acc)).isLT then v else acc := by
  cases e with
  | min =>
      simp only [pick, Relation.holds, t.partialCompare_eq, Bool.or_comm (t.ty.wrap v).isNaN,
        compare]
      split <;> rfl
  | max =>
      have hswap : (t.ty.wrap v).compare (t.ty.wrap acc) =
          ((t.ty.wrap acc).compare (t.ty.wrap v)).swap := Std.OrientedCmp.eq_swap
      simp only [pick, Relation.holds, t.partialCompare_eq, Bool.or_comm (t.ty.wrap v).isNaN,
        compare, hswap]
      split <;> simp

/-- What the extreme takes from a list of values. It is a NaN just if the first
value is one; otherwise no number of the list is beyond it. -/
structure IsOf (vs : List t.Carrier) (m : t.Carrier) : Prop where
  mem : m ∈ vs
  isNaN : (t.ty.wrap m).isNaN = t.startsWithNaN vs
  first : (t.ty.wrap m).isNaN = false → ∀ v ∈ vs, (t.ty.wrap v).isNaN = false →
    (e.compare (t.ty.wrap m) (t.ty.wrap v)).isLE

theorem isOf_singleton (v : t.Carrier) : e.IsOf t [v] v where
  mem := List.mem_singleton_self v
  isNaN := rfl
  first _ w hw _ := by
    rw [List.mem_singleton.mp hw]
    exact e.isLE_compare_self _

variable {e t}

theorem IsOf.concat {vs : List t.Carrier} {acc : t.Carrier} (h : e.IsOf t vs acc)
    (v : t.Carrier) : e.IsOf t (vs ++ [v]) (e.pick t acc v) := by
  have hstart : t.startsWithNaN (vs ++ [v]) = t.startsWithNaN vs := by
    obtain ⟨first, rest, rfl⟩ := List.exists_cons_of_ne_nil (List.ne_nil_of_mem h.mem)
    rfl
  rw [pick_eq]
  split
  · next hnan =>
    -- with a NaN on either side there is nothing to compare, and the accumulator stays
    refine ⟨List.mem_append_left _ h.mem, by rw [hstart, h.isNaN], fun hacc => ?_⟩
    rw [List.forall_mem_append, List.forall_mem_singleton]
    refine ⟨h.first hacc, fun hv => ?_⟩
    simp [hacc, hv] at hnan
  · next hnumbers =>
    obtain ⟨hacc, hv⟩ : (t.ty.wrap acc).isNaN = false ∧ (t.ty.wrap v).isNaN = false := by
      simpa using hnumbers
    split
    · next hbeyond =>
      have hle : (e.compare (t.ty.wrap v) (t.ty.wrap acc)).isLE := by
        rw [Ordering.isLT_iff_eq_lt.mp hbeyond]
        rfl
      refine ⟨by simp, by rw [hstart, ← h.isNaN, hacc, hv], fun _ => ?_⟩
      rw [List.forall_mem_append, List.forall_mem_singleton]
      refine ⟨fun w hw hnumber => ?_, fun _ => e.isLE_compare_self _⟩
      exact Std.TransCmp.isLE_trans hle (h.first hacc w hw hnumber)
    · next hnot =>
      refine ⟨List.mem_append_left _ h.mem, by rw [hstart, h.isNaN], fun _ => ?_⟩
      rw [List.forall_mem_append, List.forall_mem_singleton]
      exact ⟨h.first hacc, fun _ => isLE_of_not_lt (mt Ordering.isLT_iff_eq_lt.mpr hnot)⟩

theorem folds_pick : Folds (fun acc v => .ok (e.pick t acc v)) (e.IsOf t) fun _ => False where
  nil := id
  single := e.isOf_singleton t
  within _ _ _ := id
  step _ _ v h := ⟨id, h.concat v⟩

end Extreme

end RowCode
