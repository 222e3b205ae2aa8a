import RowCode.Proofs.Operator.Integer
import RowCode.Proofs.Rounding

/-!
# The two kinds of casts

Between types other than floats, the plain and the checked cast are one and the
same except on values that the target has no room for (`Cast.Unfit`). There the
checked cast overflows while the plain one has something to put in the place of
the value: 64 bits are cut down to 32, and a decimal is replaced by the bound of
the target on its side of zero.

A decimal is rounded to an integer before its range is looked at. What decides
is the nearest integer and not the decimal itself, which may lie outside of the
range by less than a half and still fit.
-/

namespace RowCode

/-! ## Decimals to integers -/

namespace Decimal

theorem negative_iff {d : Decimal} : d.negative = true ↔ d.value < 0 := by
  have hpow : (0 : ℚ) < 10 ^ (-d.scale) := zpow_pos (by norm_num) _
  rw [negative, decide_eq_true_iff, ← not_le, ← not_le, value, mul_nonneg_iff_of_pos_right hpow,
    Int.cast_nonneg_iff]

/-- With no digits after the point, a decimal is an integer. -/
theorem value_of_scale_le {d : Decimal} (h : d.scale ≤ 0) :
    d.value = ((d.unscaled * 10 ^ (-d.scale).toNat : Int) : ℚ) := by
  obtain ⟨k, hk⟩ := Int.eq_ofNat_of_zero_le (Int.neg_nonneg.mpr h)
  rw [value, hk, Int.toNat_natCast, zpow_natCast]
  push_cast
  rfl

theorem abs_value_of_le_scale {d : Decimal} (h : 0 ≤ d.scale) :
    |d.value| = (d.unscaled.natAbs : ℚ) / (10 ^ d.scale.toNat : Nat) := by
  obtain ⟨k, hk⟩ := Int.eq_ofNat_of_zero_le h
  have hpow : (0 : ℚ) < 10 ^ k := by positivity
  rw [value, hk, abs_mul, Int.toNat_natCast, zpow_neg, zpow_natCast, abs_of_pos (inv_pos.mpr hpow),
    div_eq_mul_inv, Nat.cast_natAbs]
  push_cast
  rfl

theorem isNearest_roundToInt (d : Decimal) : IsNearest d.value d.roundToInt := by
  unfold roundToInt
  split
  · next hzero =>
    rw [value_eq_zero_iff.mpr hzero]
    exact_mod_cast isNearest_intCast 0
  · split
    · next hscale =>
      rw [value_of_scale_le hscale]
      exact isNearest_intCast _
    · next hscale =>
      have hpow : 0 < 10 ^ d.scale.toNat := Nat.pow_pos (by decide)
      have hnear := isNearest_roundDiv d.unscaled.natAbs hpow
      rw [← abs_value_of_le_scale (by omega : 0 ≤ d.scale)] at hnear
      dsimp only
      split
      · next hneg =>
        rw [abs_of_neg (negative_iff.mp hneg)] at hnear
        simpa using hnear.neg
      · next hpos =>
        rw [negative_iff, not_lt] at hpos
        rwa [abs_of_nonneg hpos] at hnear

end Decimal

/-! ## Values that do not fit -/

def ValueTy.isFloat : ValueTy → Bool
  | float32 => true
  | float64 => true
  | _ => false

namespace Scalar

/-- The integer that a scalar of an integer type is. -/
def toInt? : Scalar → Option Int
  | int32 n => some n.toInt
  | int64 n => some n.toInt
  | _ => none

end Scalar

namespace Cast

/-- A value that the target of a cast has no room for, and the integer that the
plain cast puts in its place. -/
inductive Unfit : (src dst : ValueTy) → src.Carrier → Int → Prop where
  | cut {n : Int64} (h : Window.int32.contains n.toInt = false) :
      Unfit .int64 .int32 n (n.toInt.bmod (2 ^ 32))
  | bound (t : IntTy) {d : Decimal} {n : Int} (hn : IsNearest d.value n)
      (h : t.window.contains n = false) :
      Unfit .decimal t.valueTy d (if d.value < 0 then t.window.least else t.window.greatest)

/-- The sign of a number is that of any integer near it but zero. -/
theorem lt_zero_iff_of_isNearest {v : ℚ} {n : Int} (hn : IsNearest v n) (hzero : n ≠ 0) :
    v < 0 ↔ n < 0 := by
  obtain ⟨hlow, hhigh⟩ := abs_le.mp hn.near
  rcases lt_or_gt_of_ne hzero with hneg | hpos
  · have : (n : ℚ) ≤ -1 := by exact_mod_cast Int.le_sub_one_of_lt hneg
    exact iff_of_true (by linarith) hneg
  · have : (1 : ℚ) ≤ n := by exact_mod_cast hpos
    exact iff_of_false (by linarith) (by omega)

/-- Saturation takes the bound on the side of the number. -/
theorem saturate_of_isNearest {t : IntTy} {v : ℚ} {n : Int} (hn : IsNearest v n)
    (h : t.window.contains n = false) :
    t.toInt (t.window.saturate n) =
      if v < 0 then t.window.least else t.window.greatest := by
  have hzero := t.faithful_window.contains_zero
  have hout : ¬(t.window.least ≤ n ∧ n ≤ t.window.greatest) := by
    rw [← Window.contains_iff, h]
    exact Bool.noConfusion
  rw [Window.contains_iff] at hzero
  have hsign := lt_zero_iff_of_isNearest hn (by omega)
  rw [IntTy.toInt, t.faithful_window.toInt_saturate]
  split
  · next hneg =>
    rw [hsign] at hneg
    omega
  · next hpos =>
    rw [hsign] at hpos
    omega

variable {src dst : ValueTy}

/-- On a value without room, the two kinds differ. -/
theorem Unfit.convert_eq {v : src.Carrier} {n : Int} (h : Unfit src dst v n) :
    convert true src dst v = .error (.overflow dst.ty) ∧
      ∃ w, convert false src dst v = .ok w ∧ (dst.ty.wrap w).toInt? = some n := by
  cases h with
  | cut h =>
      exact ⟨Window.exact_of_not_contains h, _, rfl, congrArg some Int32.toInt_ofInt⟩
  | @bound t d n hn h =>
      obtain rfl := hn.unique d.isNearest_roundToInt
      have hsaturate := congrArg some (saturate_of_isNearest hn h)
      cases t with
      | int32 => exact ⟨Window.exact_of_not_contains h, _, rfl, hsaturate⟩
      | int64 => exact ⟨Window.exact_of_not_contains h, _, rfl, hsaturate⟩

/-- On all others, they do the same. -/
theorem convert_eq (defined : Defined src dst) (hsrc : src.isFloat = false)
    (hdst : dst.isFloat = false) {v : src.Carrier} (hfit : ∀ n, ¬Unfit src dst v n) :
    convert true src dst v = convert false src dst v := by
  cases src with
  | int32 =>
      cases dst with
      | int32 => exact absurd rfl defined.1
      | _ => rfl
  | int64 =>
      cases dst with
      | int32 =>
          cases hin : Window.int32.contains v.toInt with
          | true => exact if_pos hin
          | false => exact absurd (.cut hin) (hfit _)
      | _ => rfl
  | bool => rfl
  | decimal =>
      cases dst with
      | int32 =>
          cases hin : Window.int32.contains v.roundToInt with
          | true => exact Window.exact_of_contains hin
          | false => exact absurd (.bound .int32 v.isNearest_roundToInt hin) (hfit _)
      | int64 =>
          cases hin : Window.int64.contains v.roundToInt with
          | true => exact Window.exact_of_contains hin
          | false => exact absurd (.bound .int64 v.isNearest_roundToInt hin) (hfit _)
      | float32 => cases hdst
      | float64 => cases hdst
      | _ => rfl
  | float32 => cases hsrc
  | float64 => cases hsrc
  | string => rfl

/-! ## Steps -/

theorem step_eq (checked : Bool) (defined : Defined src dst) (v : src.Carrier)
    (row : Option Row) (rest : Stack) :
    (Instr.op (.cast checked src dst defined)).step row (some (src.ty.wrap v) :: rest) =
      push dst.ty rest (some <$> convert checked src dst v) :=
  Kernel.apply_strict1 _ v rest

/-- A decimal that the checked cast accepts becomes the nearest integer. -/
theorem isNearest_of_convert {t : IntTy} {d : Decimal} {w : t.valueTy.Carrier}
    (h : convert true .decimal t.valueTy d = .ok w) :
    ∃ c, t.valueTy.ty.wrap w = t.ty.wrap c ∧ IsNearest d.value (t.toInt c) := by
  have hexact : ∃ c, t.window.exact d.roundToInt = .ok c ∧ t.valueTy.ty.wrap w = t.ty.wrap c := by
    cases t with
    | int32 => exact ⟨w, h, rfl⟩
    | int64 => exact ⟨w, h, rfl⟩
  obtain ⟨c, hc, hw⟩ := hexact
  refine ⟨c, hw, ?_⟩
  rw [Window.exact] at hc
  split at hc
  · next hin =>
    cases hc
    rw [IntTy.toInt_ofInt hin]
    exact d.isNearest_roundToInt
  · cases hc

theorem ofDecimal_defined (t : IntTy) : Defined .decimal t.valueTy := by
  cases t <;> decide

theorem step_decimal {t : IntTy} {d : Decimal} {row : Option Row} {rest stack : Stack}
    (h : (Instr.op (.cast true .decimal t.valueTy (ofDecimal_defined t))).step row
      (some (.decimal d) :: rest) = .ok stack) :
    ∃ c, stack = some (t.ty.wrap c) :: rest ∧ IsNearest d.value (t.toInt c) := by
  have hstep := (step_eq true (ofDecimal_defined t) d row rest).symm.trans h
  rw [push_eq_ok_iff] at hstep
  obtain ⟨z, hz, rfl⟩ := hstep
  cases hconvert : convert true .decimal t.valueTy d with
  | error e =>
      rw [hconvert] at hz
      cases hz
  | ok w =>
      rw [hconvert] at hz
      cases hz
      obtain ⟨c, hw, hnear⟩ := isNearest_of_convert hconvert
      exact ⟨c, by rw [Option.map_some, hw], hnear⟩

end Cast

/-- The checked cast against the plain one, between types other than floats. What
the checked cast accepts, the plain one accepts with the same result. They part
on the values that do not fit, and nowhere else. -/
theorem casts_agree {src dst : ValueTy} (defined : Cast.Defined src dst)
    (hsrc : src.isFloat = false) (hdst : dst.isFloat = false) (v : src.Carrier)
    (row : Option Row) (rest : Stack) :
    let cast (checked : Bool) :=
      (Instr.op (.cast checked src dst defined)).step row (some (src.ty.wrap v) :: rest)
    (∀ stack, cast true = .ok stack → cast false = .ok stack) ∧
    ((cast true = .error ⟨.overflow dst.ty, rest⟩ ∧ ∃ stack, cast false = .ok stack) ↔
      ∃ n, Cast.Unfit src dst v n) ∧
    (∀ n, Cast.Unfit src dst v n → ∃ w, cast false = .ok (some w :: rest) ∧ w.ty = dst.ty ∧
      w.toInt? = some n) ∧
    ((∀ n, ¬Cast.Unfit src dst v n) → cast true = cast false) ∧
    ∀ (t : IntTy) (d : Decimal) (stack : Stack),
      (Instr.op (.cast true .decimal t.valueTy (Cast.ofDecimal_defined t))).step row
          (some (.decimal d) :: rest) = .ok stack →
        ∃ c, stack = some (t.ty.wrap c) :: rest ∧ IsNearest d.value (t.toInt c) := by
  intro cast
  have hstep : ∀ checked, cast checked =
      push dst.ty rest (some <$> Cast.convert checked src dst v) :=
    fun checked => Cast.step_eq checked defined v row rest
  have hunfit : ∀ n, Cast.Unfit src dst v n → cast true = .error ⟨.overflow dst.ty, rest⟩ ∧
      ∃ w, cast false = .ok (some w :: rest) ∧ w.ty = dst.ty ∧ w.toInt? = some n := by
    intro n hn
    obtain ⟨hchecked, w, hplain, hw⟩ := hn.convert_eq
    rw [hstep, hstep, hchecked, hplain]
    exact ⟨rfl, dst.ty.wrap w, rfl, Ty.ty_wrap dst.ty w, hw⟩
  have hfit : (∀ n, ¬Cast.Unfit src dst v n) → cast true = cast false := by
    intro hnone
    rw [hstep, hstep, Cast.convert_eq defined hsrc hdst hnone]
  refine ⟨fun stack hok => ?_, ⟨fun ⟨herror, stack, hok⟩ => ?_, fun ⟨n, hn⟩ => ?_⟩,
    fun n hn => (hunfit n hn).2, hfit, fun t d stack => Cast.step_decimal⟩
  · by_cases h : ∃ n, Cast.Unfit src dst v n
    · obtain ⟨n, hn⟩ := h
      rw [(hunfit n hn).1] at hok
      cases hok
    · rw [← hfit (not_exists.mp h), hok]
  · by_contra h
    rw [hfit (not_exists.mp h), hok] at herror
    cases herror
  · obtain ⟨hchecked, w, hplain, -⟩ := hunfit n hn
    exact ⟨hchecked, _, hplain⟩

/-- A half above the greatest integer is rounded up, and then does not fit. -/
theorem casts_agree_half :
    let cast (checked : Bool) := (Instr.op (.cast checked .decimal .int64 (by decide))).step none
      [some (.decimal ⟨92233720368547758075, 1⟩)]
    cast true = .error ⟨.overflow .int64, []⟩ ∧
      ∃ w, cast false = .ok [some w] ∧ w.toInt? = some (2 ^ 63 - 1) := by
  let d : Decimal := ⟨92233720368547758075, 1⟩
  obtain ⟨-, hoverflow, hplain, -⟩ :=
    casts_agree (by decide : Cast.Defined .decimal .int64) rfl rfl d none []
  have hunfit : Cast.Unfit .decimal .int64 d (2 ^ 63 - 1) := by
    have hbound := Cast.Unfit.bound .int64 d.isNearest_roundToInt (by decide)
    rwa [if_neg (by norm_num [d, Decimal.value])] at hbound
  obtain ⟨w, hw, -, hn⟩ := hplain _ hunfit
  exact ⟨(hoverflow.mpr ⟨_, hunfit⟩).1, w, hw, hn⟩

end RowCode
