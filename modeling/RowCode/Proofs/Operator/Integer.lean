import RowCode.Proofs.Operator.Folds
import RowCode.Proofs.Step

/-!
# Arithmetic of fixed-width integers

Sums, differences, products, quotients and the signs of integers are exact, or
overflow where the type has no member for the exact result (`IntTy.Exact`);
nothing wraps. Two operators never fail. A remainder is always in range, also
where the quotient is not. The unchecked magnitude gives the least integer,
which has none, back as it is.
-/

namespace RowCode

namespace Window

variable {α : Type} {w : Window α}

theorem Faithful.least_le_greatest (h : w.Faithful) : w.least ≤ w.greatest := by
  have hzero := contains_iff.mp h.contains_zero
  omega

theorem Faithful.contains_least (h : w.Faithful) : w.contains w.least = true :=
  contains_iff.mpr ⟨Int.le_refl _, h.least_le_greatest⟩

theorem Faithful.contains_greatest (h : w.Faithful) : w.contains w.greatest = true :=
  contains_iff.mpr ⟨h.least_le_greatest, Int.le_refl _⟩

theorem Faithful.toInt_saturate (h : w.Faithful) (n : Int) :
    w.toInt (w.saturate n) = max w.least (min w.greatest n) := by
  have hle := h.least_le_greatest
  refine h.toInt_ofInt _ (contains_iff.mpr ?_)
  omega

/-- An integer that fits is not changed by saturation. -/
theorem exact_of_contains {n : Int} (h : w.contains n = true) :
    w.exact n = .ok (w.saturate n) := by
  rw [exact, if_pos h]
  rw [contains_iff] at h
  rw [saturate, min_eq_right h.2, max_eq_right h.1]

theorem exact_of_not_contains {n : Int} (h : w.contains n = false) :
    w.exact n = .error (.overflow w.ty) := by
  rw [exact, h, if_neg Bool.false_ne_true]

theorem exact_eq (w : Window α) (n : Int) :
    w.exact n =
      if w.least ≤ n ∧ n ≤ w.greatest then .ok (w.saturate n) else .error (.overflow w.ty) := by
  cases h : w.contains n with
  | true => rw [exact_of_contains h, if_pos (contains_iff.mp h)]
  | false =>
      rw [exact_of_not_contains h, if_neg]
      rw [← contains_iff, h]
      exact Bool.false_ne_true

end Window

namespace IntTy

def num : IntTy → NumTy
  | int32 => .int32
  | int64 => .int64

def valueTy : IntTy → ValueTy
  | int32 => .int32
  | int64 => .int64

def window : (t : IntTy) → Window t.Carrier
  | int32 => .int32
  | int64 => .int64

/-- The integer that a member of the type is. -/
def toInt (t : IntTy) (c : t.Carrier) : Int :=
  t.window.toInt c

theorem faithful_window : ∀ t : IntTy, t.window.Faithful
  | int32 => Window.faithful_int32
  | int64 => Window.faithful_int64

/-- What is pushed for an integer: the member of the type that it is, or an
overflow if it is none. -/
inductive Exact (t : IntTy) (n : Int) (rest : Stack) : Except Halt Stack → Prop where
  | value {c : t.Carrier} (h : t.toInt c = n) : Exact t n rest (.ok (some (t.ty.wrap c) :: rest))
  | overflow (h : ∀ c : t.Carrier, t.toInt c ≠ n) : Exact t n rest (.error ⟨.overflow t.ty, rest⟩)

theorem ty_window : ∀ t : IntTy, t.window.ty = t.ty
  | int32 => rfl
  | int64 => rfl

variable {t : IntTy}

theorem contains_toInt (c : t.Carrier) : t.window.contains (t.toInt c) = true :=
  t.faithful_window.contains_toInt c

theorem toInt_ofInt {n : Int} (h : t.window.contains n = true) :
    t.toInt (t.window.ofInt n) = n :=
  t.faithful_window.toInt_ofInt n h

theorem exact_push (n : Int) (rest : Stack) :
    t.Exact n rest (push t.ty rest (some <$> t.window.exact n)) := by
  unfold Window.exact
  split
  · next h => exact .value (toInt_ofInt h)
  · next h =>
    rw [ty_window]
    refine .overflow fun c hc => h ?_
    rw [← hc]
    exact contains_toInt c

/-! ## Steps -/

section Steps

variable (t) (row : Option Row) (rest : Stack)

theorem step_arith (op : ArithOp) (a b : t.Carrier) :
    (Instr.op (.arith op t.num)).step row (some (t.ty.wrap b) :: some (t.ty.wrap a) :: rest) =
      push t.ty rest (op.apply (.ofWindow t.window) a b) := by
  cases t <;> exact Kernel.apply_strict2 _ a b rest

theorem step_sign (f : SignFn) (a : t.Carrier) :
    (Instr.op (.sign f t.num)).step row (some (t.ty.wrap a) :: rest) =
      push t.ty rest (some <$> f.apply (.ofWindow t.window) a) := by
  cases t <;> exact Kernel.apply_strict1 _ a rest

theorem step_rem (a b : t.Carrier) :
    (Instr.op (.rem t)).step row (some (t.ty.wrap b) :: some (t.ty.wrap a) :: rest) =
      push t.ty rest (.ok (t.window.rem? a b)) := by
  cases t <;> exact Kernel.apply_strict2 _ a b rest

end Steps

/-! ## Remainders and magnitudes -/

theorem ofInt_toInt (c : t.Carrier) : t.window.ofInt (t.toInt c) = c := by
  cases t with
  | int32 => exact Int32.ofInt_toInt c
  | int64 => exact Int64.ofInt_toInt c

theorem least_eq (t : IntTy) : t.window.least = -(t.window.greatest + 1) := by
  cases t <;> rfl

/-- The least integer is the only one whose magnitude is not in the type, and
the magnitude wraps around to it. -/
theorem wrap_natAbs {c : t.Carrier} (h : t.toInt c = t.window.least) :
    t.window.ofInt (t.toInt c).natAbs = c := by
  rw [← ofInt_toInt c, h]
  cases t <;> rfl

/-- The magnitude of any other integer is in the type. -/
theorem contains_natAbs {c : t.Carrier} (h : t.toInt c ≠ t.window.least) :
    t.window.contains (t.toInt c).natAbs = true := by
  have hc := contains_toInt c
  have hleast := least_eq t
  rw [Window.contains_iff] at hc ⊢
  omega

/-- A remainder is in the type, since it is no greater than what is divided and
has its sign. -/
theorem contains_tmod (a b : t.Carrier) :
    t.window.contains ((t.toInt a).tmod (t.toInt b)) = true := by
  have ha := contains_toInt a
  have hzero := t.faithful_window.contains_zero
  have hle : ((t.toInt a).tmod (t.toInt b)).natAbs ≤ (t.toInt a).natAbs := by
    rw [Int.natAbs_tmod]
    exact Nat.mod_le _ _
  have hsign := Int.sign_tmod (t.toInt a) (t.toInt b)
  rw [Window.contains_iff] at ha hzero ⊢
  rcases Int.lt_trichotomy (t.toInt a) 0 with hneg | hnone | hpos
  · rw [Int.sign_eq_neg_one_of_neg hneg] at hsign
    have : (t.toInt a).tmod (t.toInt b) ≤ 0 := by
      rw [← Int.sign_nonpos_iff, hsign]
      split <;> decide
    omega
  · omega
  · have := Int.tmod_nonneg (t.toInt b) hpos.le
    omega

/-- The remainder of a division that drops the fraction of the quotient. -/
structure IsRemainder (m n r : Int) : Prop where
  eq : m = m.tdiv n * n + r
  lt : r.natAbs < n.natAbs
  sign : r = 0 ∨ r.sign = m.sign

theorem isRemainder_tmod (m : Int) {n : Int} (hn : n ≠ 0) : IsRemainder m n (m.tmod n) where
  eq := (Int.tdiv_mul_add_tmod m n).symm
  lt := by
    rw [Int.natAbs_tmod]
    exact Nat.mod_lt _ (Int.natAbs_pos.mpr hn)
  sign := by
    by_cases hdvd : n ∣ m
    · exact .inl (Int.tmod_eq_zero_of_dvd hdvd)
    · exact .inr (by rw [Int.sign_tmod, if_neg hdvd])

theorem exact_div {a b : t.Carrier} (hb : t.toInt b ≠ 0) (rest : Stack) :
    t.Exact ((t.toInt a).tdiv (t.toInt b)) rest
      (push t.ty rest (ArithOp.div.apply (.ofWindow t.window) a b)) := by
  have hdiv : ArithOp.div.apply (.ofWindow t.window) a b =
      some <$> t.window.exact ((t.toInt a).tdiv (t.toInt b)) := if_neg hb
  rw [hdiv]
  exact exact_push _ rest

theorem rem?_eq {a b : t.Carrier} (hb : t.toInt b ≠ 0) :
    ∃ r, t.window.rem? a b = some r ∧ IsRemainder (t.toInt a) (t.toInt b) (t.toInt r) := by
  refine ⟨t.window.ofInt ((t.toInt a).tmod (t.toInt b)), if_neg hb, ?_⟩
  rw [toInt_ofInt (contains_tmod a b)]
  exact isRemainder_tmod _ hb

/-- The two magnitudes differ on the least integer only. -/
theorem abs_eq (a : t.Carrier) (rest : Stack) :
    push t.ty rest (some <$> SignFn.abs.apply (.ofWindow t.window) a) =
      if t.toInt a = t.window.least then .ok (some (t.ty.wrap a) :: rest)
      else push t.ty rest (some <$> SignFn.absCheck.apply (.ofWindow t.window) a) := by
  have habs : SignFn.abs.apply (.ofWindow t.window) a =
      .ok (t.window.ofInt (t.toInt a).natAbs) := rfl
  have hchecked : SignFn.absCheck.apply (.ofWindow t.window) a =
      t.window.exact (t.toInt a).natAbs := rfl
  rw [habs, hchecked]
  split
  · next hleast =>
    rw [wrap_natAbs hleast]
    rfl
  · next hleast => rw [Window.exact, if_pos (contains_natAbs hleast)]

/-- The operators of a fixed-width integer type, on all of its values. Each is
exact or overflows, a division by zero has no result, and the two that cannot
fail are the remainder and the unchecked magnitude. -/
theorem arithmetic_exact (t : IntTy) (a b : t.Carrier) (row : Option Row) (rest : Stack) :
    let m := t.toInt a
    let n := t.toInt b
    let two (op : Operator) :=
      (Instr.op op).step row (some (t.ty.wrap b) :: some (t.ty.wrap a) :: rest)
    let one (f : SignFn) := (Instr.op (.sign f t.num)).step row (some (t.ty.wrap a) :: rest)
    t.Exact (m + n) rest (two (.arith .add t.num)) ∧
    t.Exact (m - n) rest (two (.arith .sub t.num)) ∧
    t.Exact (m * n) rest (two (.arith .mul t.num)) ∧
    t.Exact (-m) rest (one .neg) ∧
    t.Exact m.natAbs rest (one .absCheck) ∧
    (n ≠ 0 → t.Exact (m.tdiv n) rest (two (.arith .div t.num))) ∧
    (n = 0 → two (.arith .div t.num) = .ok (none :: rest) ∧ two (.rem t) = .ok (none :: rest)) ∧
    (n ≠ 0 → ∃ r, two (.rem t) = .ok (some (t.ty.wrap r) :: rest) ∧
      IsRemainder m n (t.toInt r)) ∧
    one .abs =
      if m = t.window.least then .ok (some (t.ty.wrap a) :: rest) else one .absCheck := by
  intro m n two one
  simp only [two, one, step_arith, step_sign, step_rem]
  refine ⟨exact_push _ rest, exact_push _ rest, exact_push _ rest, exact_push _ rest,
    exact_push _ rest, fun hn => exact_div hn rest, fun hn => ?_, fun hn => ?_, abs_eq a rest⟩
  · have hdiv : ArithOp.div.apply (.ofWindow t.window) a b = .ok none := if_pos hn
    have hrem : t.window.rem? a b = none := if_pos hn
    rw [hdiv, hrem]
    exact ⟨rfl, rfl⟩
  · obtain ⟨r, hr, hspec⟩ := rem?_eq (a := a) hn
    exact ⟨r, by rw [hr]; rfl, hspec⟩

/-- The quotient of these two overflows, and the remainder is zero. -/
example : (Instr.op (.rem .int64)).step none
    [some (.int64 (-1)), some (.int64 (Int64.ofInt (-2 ^ 63)))] = .ok [some (.int64 0)] := by
  decide

end IntTy

end RowCode
