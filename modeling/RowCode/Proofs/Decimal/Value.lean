import Mathlib.Algebra.Field.Rat
import Mathlib.Algebra.Order.Field.Power
import Mathlib.Algebra.Order.Ring.Unbundled.Rat
import Mathlib.Order.Compare
import Mathlib.Tactic.LinearCombination
import Mathlib.Tactic.NormNum
import Mathlib.Tactic.Ring
import RowCode.Decimal.Arith

/-!
# Values of decimals

The number that a decimal stands for (`Decimal.value`). Taking out trailing
zeros and writing a decimal with a larger scale keep it, and sums, differences
and signs are those of numbers, whatever scale the result is given. Decimals
compare as their values do (`compare_eq_compare_value`).

The power of ten of a nonzero decimal is the largest one that its value is a
whole multiple of (`isMultiple_value_iff`). So the bound on powers of ten, which
is checked on the normal form, is a matter of the value alone
(`isBounded_iff`).
-/

namespace RowCode.Decimal

/-- The number `unscaled * 10 ^ (-scale)`. -/
def value (d : Decimal) : ℚ :=
  d.unscaled * 10 ^ (-d.scale)

theorem ten_zpow_ne_zero (e : Int) : (10 : ℚ) ^ e ≠ 0 :=
  zpow_ne_zero e (by norm_num)

/-- A power of ten is a whole multiple of every smaller one. -/
theorem ten_zpow_of_le {e f : Int} (h : e ≤ f) :
    (10 : ℚ) ^ f = ((10 ^ (f - e).toNat : Int) : ℚ) * 10 ^ e := by
  have hf : f = ((f - e).toNat : Int) + e := by omega
  conv_lhs => rw [hf]
  rw [zpow_add₀ (by norm_num), zpow_natCast]
  push_cast
  rfl

theorem value_eq_zero_iff {d : Decimal} : d.value = 0 ↔ d.unscaled = 0 := by
  simp [value, ten_zpow_ne_zero]

@[simp]
theorem value_zero (scale : Int) : value ⟨0, scale⟩ = 0 :=
  value_eq_zero_iff.mpr rfl

theorem value_ofInt (n : Int) : (ofInt n).value = n := by
  simp [value, ofInt]

/-! ## Arithmetic -/

theorem value_rescale {d : Decimal} {scale : Int} (h : d.scale ≤ scale) :
    (d.rescale scale).value = d.value := by
  rw [rescale]
  split
  · next hzero => rw [value_zero, value_eq_zero_iff.mpr hzero]
  · have hpow := ten_zpow_of_le (Int.neg_le_neg h)
    rw [show -d.scale - -scale = scale - d.scale by omega] at hpow
    rw [value, value, hpow]
    push_cast
    ring

/-- The value over another scale, as sums and differences take it. -/
theorem value_eq_rescale {d : Decimal} {scale : Int} (h : d.scale ≤ scale) :
    d.value = (d.rescale scale).unscaled * 10 ^ (-scale) := by
  have hscale : (d.rescale scale).scale = scale := by
    rw [rescale]
    split <;> rfl
  rw [← value_rescale h, value, hscale]

theorem value_addZero (d : Decimal) (scale : Int) : (d.addZero scale).value = d.value :=
  value_rescale (by rw [zeroPadding]; omega)

theorem value_of_isZero {d : Decimal} (h : d.isZero = true) : d.value = 0 :=
  value_eq_zero_iff.mpr (by simpa [isZero] using h)

theorem value_add (a b : Decimal) : (a.add b).value = a.value + b.value := by
  rw [add]
  split
  · next hb => rw [value_addZero, value_of_isZero hb, add_zero]
  · split
    · next ha => rw [value_addZero, value_of_isZero ha, zero_add]
    · rw [value_eq_rescale (Int.le_max_left a.scale b.scale),
        value_eq_rescale (Int.le_max_right a.scale b.scale), value]
      push_cast
      ring

theorem value_sub (a b : Decimal) : (a.sub b).value = a.value - b.value := by
  rw [value_eq_rescale (Int.le_max_left a.scale b.scale),
    value_eq_rescale (Int.le_max_right a.scale b.scale), value, sub]
  push_cast
  ring

theorem value_neg (d : Decimal) : d.neg.value = -d.value := by
  simp [value, neg]

theorem value_abs (d : Decimal) : d.abs.value = |d.value| := by
  rw [value, value, abs_mul, abs_of_pos (zpow_pos (by norm_num : (0 : ℚ) < 10) _), abs]
  simp

/-! ## Order -/

/-- Numbers over one scale compare as their unscaled integers do. -/
theorem compare_mul_zpow (m n e : Int) :
    Ord.compare ((m : ℚ) * 10 ^ e) (n * 10 ^ e) = Ord.compare m n := by
  have hmono : StrictMono fun k : Int => (k : ℚ) * 10 ^ e := by
    intro k l hkl
    exact mul_lt_mul_of_pos_right (by exact_mod_cast hkl) (zpow_pos (by norm_num) e)
  rw [← cmp_eq_compare, ← cmp_eq_compare]
  exact hmono.cmp_map_eq m n

theorem compare_eq_compare_value (a b : Decimal) : a.compare b = Ord.compare a.value b.value := by
  rw [compare]
  split
  · next hzero =>
    rcases hzero with ha | hb
    · rw [value_eq_zero_iff.mpr ha, ha, value, ← compare_mul_zpow 0 _ (-b.scale), Int.cast_zero,
        zero_mul]
    · rw [value_eq_zero_iff.mpr hb, hb, value, ← compare_mul_zpow _ 0 (-a.scale), Int.cast_zero,
        zero_mul]
  · rw [value_eq_rescale (Int.le_max_left a.scale b.scale),
      value_eq_rescale (Int.le_max_right a.scale b.scale), compare_mul_zpow]

theorem compare_eq_iff_value {a b : Decimal} : a.compare b = .eq ↔ a.value = b.value := by
  rw [compare_eq_compare_value, compare_eq_iff_eq]

/-! ## Trailing zeros -/

theorem value_strip (n scale : Int) : (strip n scale).value = value ⟨n, scale⟩ := by
  induction n, scale using strip.induct with
  | case1 n scale h ih =>
      have hn : ((n / 10 : Int) : ℚ) * 10 = n := by
        exact_mod_cast Int.ediv_mul_cancel (Int.dvd_of_emod_eq_zero h.2)
      rw [strip, if_pos h, ih, value, value]
      dsimp only
      rw [show -(scale - 1) = 1 + -scale by omega, zpow_add₀ (by norm_num), zpow_one,
        ← mul_assoc, hn]
  | case2 n scale h => rw [strip, if_neg h]

theorem strip_unscaled_emod {n : Int} (hn : n ≠ 0) (scale : Int) :
    (strip n scale).unscaled % 10 ≠ 0 := by
  induction n, scale using strip.induct with
  | case1 n scale h ih =>
      rw [strip, if_pos h]
      exact ih (by omega)
  | case2 n scale h =>
      rw [strip, if_neg h]
      exact fun hmod => h ⟨hn, hmod⟩

/-- The value of the normal form. -/
theorem value_normal (d : Decimal) : d.normal.value = d.value := by
  rw [normal]
  split
  · next h => rw [zero, value_zero, value_eq_zero_iff.mpr h]
  · exact value_strip d.unscaled d.scale

/-! ## Powers of ten -/

/-- A whole multiple of the power of ten. -/
def IsMultiple (v : ℚ) (e : Int) : Prop :=
  ∃ k : Int, v = k * 10 ^ e

theorem IsMultiple.neg {v : ℚ} {e : Int} (h : IsMultiple v e) : IsMultiple (-v) e := by
  obtain ⟨k, rfl⟩ := h
  exact ⟨-k, by push_cast; ring⟩

theorem isMultiple_neg_iff {v : ℚ} {e : Int} : IsMultiple (-v) e ↔ IsMultiple v e :=
  ⟨fun h => by simpa using h.neg, IsMultiple.neg⟩

theorem IsMultiple.add {v w : ℚ} {e : Int} (hv : IsMultiple v e) (hw : IsMultiple w e) :
    IsMultiple (v + w) e := by
  obtain ⟨k, rfl⟩ := hv
  obtain ⟨l, rfl⟩ := hw
  exact ⟨k + l, by push_cast; ring⟩

theorem IsMultiple.sub {v w : ℚ} {e : Int} (hv : IsMultiple v e) (hw : IsMultiple w e) :
    IsMultiple (v - w) e := by
  rw [sub_eq_add_neg]
  exact hv.add hw.neg

/-- An integer without a trailing zero, moved by a power of ten. -/
theorem isMultiple_mul_zpow_iff {m : Int} (hm : m % 10 ≠ 0) {e f : Int} :
    IsMultiple (m * 10 ^ f) e ↔ e ≤ f := by
  constructor
  · rintro ⟨k, hk⟩
    by_contra hlt
    obtain ⟨j, hj⟩ : ∃ j, (e - f).toNat = j + 1 := ⟨(e - f).toNat - 1, by omega⟩
    rw [ten_zpow_of_le (show f ≤ e by omega), hj, ← mul_assoc,
      mul_left_inj' (ten_zpow_ne_zero f)] at hk
    have hk' : m = k * 10 ^ j * 10 := by
      rw [Int.mul_assoc, ← pow_succ]
      exact_mod_cast hk
    omega
  · intro h
    refine ⟨m * 10 ^ (f - e).toNat, ?_⟩
    rw [ten_zpow_of_le h]
    push_cast
    ring

/-- The power of ten of a nonzero decimal is the largest one its value is a
multiple of. -/
theorem isMultiple_value_iff {d : Decimal} (hd : d.value ≠ 0) {e : Int} :
    IsMultiple d.value e ↔ e ≤ d.exponent := by
  have hn : d.unscaled ≠ 0 := fun h => hd (value_eq_zero_iff.mpr h)
  have hmod : d.normal.unscaled % 10 ≠ 0 := by
    rw [normal, if_neg hn]
    exact strip_unscaled_emod hn d.scale
  rw [← value_normal, value, isMultiple_mul_zpow_iff hmod, exponent]

theorem exponent_of_value_eq_zero {d : Decimal} (hd : d.value = 0) : d.exponent = 0 := by
  rw [exponent, normal, if_pos (value_eq_zero_iff.mp hd)]
  rfl

/-- The bound on powers of ten, said of the value. -/
theorem isBounded_iff {d : Decimal} :
    d.isBounded = true ↔
      d.value = 0 ∨
        (IsMultiple d.value (-maxExponent) ∧ ¬IsMultiple d.value (maxExponent + 1)) := by
  rw [isBounded, decide_eq_true_iff]
  by_cases hd : d.value = 0
  · simp [hd, exponent_of_value_eq_zero hd]
  · rw [isMultiple_value_iff hd, isMultiple_value_iff hd, or_iff_right hd]
    omega

end RowCode.Decimal
