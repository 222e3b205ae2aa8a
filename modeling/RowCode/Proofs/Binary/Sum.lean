import RowCode.Binary.Arith
import RowCode.Proofs.Binary.Exact
import RowCode.Proofs.Operand.Order

/-!
# Sums with zero

A zero of either sign added to a float gives the float back, up to the sign of
a zero and the bits of a NaN (`rank_zero_add`). These are the only floats that
share a place in the order though their bits differ, so floats that share one
have sums that do (`rank_add_congr`).
-/

namespace RowCode.Binary

variable {f : Format}

/-- A float is its sign and its magnitude. -/
theorem ofMagnitude_magnitude (x : Binary f) : ofMagnitude x.negative x.magnitude = x := by
  have hwidth : 2 ^ f.width = 2 * f.signBit := by
    cases f <;> rfl
  have hpos : 0 < f.signBit := Nat.two_pow_pos _
  have hlt : x.bits.toNat < 2 * f.signBit := hwidth ▸ x.bits.isLt
  have hmagnitude : x.magnitude < f.signBit := Nat.mod_lt _ hpos
  have hbits : (ofMagnitude x.negative x.magnitude : Binary f).bits = x.bits := by
    apply BitVec.eq_of_toNat_eq
    rw [toNat_ofMagnitude _ hmagnitude, negative, magnitude]
    by_cases hneg : f.signBit ≤ x.bits.toNat
    · simp only [hneg, decide_true, if_true]
      rw [Nat.mod_eq_sub_mod hneg, Nat.mod_eq_of_lt (by omega)]
      omega
    · simp only [hneg, decide_false, Bool.false_eq_true, if_false]
      exact Nat.mod_eq_of_lt (Nat.lt_of_not_le hneg)
  exact congrArg Binary.mk hbits

/-! ## Places in the order -/

theorem rank_of_isNaN {x : Binary f} (h : x.isNaN = true) : x.rank = f.infinity + 1 :=
  if_pos h

theorem isNaN_iff_rank {x : Binary f} : x.isNaN = true ↔ x.rank = f.infinity + 1 := by
  refine ⟨rank_of_isNaN, fun h => ?_⟩
  by_contra hx
  exact rank_ne_of_not_isNaN (Bool.eq_false_iff.mpr hx) h

theorem isZero_iff_rank {x : Binary f} : x.isZero = true ↔ x.rank = 0 := by
  have hzero : x.isZero = true ↔ x.magnitude = 0 := decide_eq_true_iff
  rw [hzero, rank]
  split
  · next hnan =>
    have hlt : f.infinity < x.magnitude := by simpa [isNaN] using hnan
    omega
  · split <;> omega

/-- Floats in one place of the order are the same float, unless they are zeros
or not numbers. -/
theorem eq_of_rank {x y : Binary f} (hx : x.isNaN = false) (hy : y.isNaN = false)
    (hzero : x.isZero = false) (h : x.rank = y.rank) : x = y := by
  have hne : x.magnitude ≠ 0 := by simpa [isZero] using hzero
  simp only [rank, hx, hy, Bool.false_eq_true, if_false] at h
  rw [← ofMagnitude_magnitude x, ← ofMagnitude_magnitude y]
  cases hneg : x.negative <;> cases hneg' : y.negative <;>
    simp only [hneg, hneg', Bool.false_eq_true, if_false, if_true] at h
  · rw [Int.ofNat_inj.mp h]
  · omega
  · omega
  · rw [Int.ofNat_inj.mp (Int.neg_inj.mp h)]

/-! ## Finite floats by their units -/

theorem minExponent_le_scaled (x : Binary f) : f.minExponent ≤ x.scaled.2 := by
  simp only [scaled, Format.scaled]
  split
  · exact Int.le_refl _
  · exact Int.le_add_of_nonneg_right (Int.natCast_nonneg _)

theorem scaled_of_isZero {x : Binary f} (hx : x.isZero = true) : x.scaled = (0, f.minExponent) := by
  have hmagnitude : x.magnitude = 0 := by simpa [isZero] using hx
  simp [scaled, Format.scaled, hmagnitude]

theorem isZero_of_scaled {x : Binary f} (h : x.scaled.1 = 0) : x.isZero = true := by
  have habs := abs_value x
  rw [value, h, Int.cast_zero, zero_mul, abs_zero, ← f.value_zero] at habs
  simpa [isZero] using (f.strictMono_value.injective habs).symm

theorem negative_of_scaled {x : Binary f} (h : x.scaled.1 ≠ 0) :
    x.negative = decide (x.scaled.1 < 0) := by
  cases hneg : x.negative <;>
    simp only [scaled, hneg, Bool.false_eq_true, if_false, if_true] at h ⊢
  · rw [eq_comm, decide_eq_false_iff_not]
    omega
  · rw [eq_comm, decide_eq_true_iff]
    omega

/-- A finite float is what its own value is rounded to. -/
theorem ofScaled_scaled {x : Binary f} (hx : x.isFinite = true) {low : Int}
    (hlow : low ≤ x.scaled.2) :
    ofScaled x.negative (x.scaled.1 * 2 ^ (x.scaled.2 - low).toNat).natAbs low = x := by
  have hpow := two_zpow_add low (x.scaled.2 - low).toNat
  rw [show low + ((x.scaled.2 - low).toNat : Int) = x.scaled.2 by omega] at hpow
  have hratio : (((x.scaled.1 * 2 ^ (x.scaled.2 - low).toNat).natAbs * 2 ^ low.toNat : Nat) : ℚ) /
      (2 ^ (-low).toNat : Nat) = f.value x.magnitude :=
    calc (((x.scaled.1 * 2 ^ (x.scaled.2 - low).toNat).natAbs * 2 ^ low.toNat : Nat) : ℚ) /
          (2 ^ (-low).toNat : Nat)
      _ = |(x.scaled.1 : ℚ)| * 2 ^ (x.scaled.2 - low).toNat *
            (2 ^ low.toNat / 2 ^ (-low).toNat) := by
        rw [Int.natAbs_mul, Int.natAbs_pow, show Int.natAbs 2 = 2 from rfl]
        push_cast [Nat.cast_natAbs]
        ring
      _ = |(x.scaled.1 : ℚ)| * 2 ^ x.scaled.2 := by
        rw [← two_zpow_eq_div, mul_assoc, ← hpow]
      _ = f.value x.magnitude := by
        rw [← abs_value, value, abs_mul, abs_of_pos (two_zpow_pos _)]
  rw [ofScaled, ofRatio_eq _ (Nat.two_pow_pos _) (magnitude_lt_of_isFinite hx) hratio,
    ofMagnitude_magnitude]

/-! ## Sums -/

theorem isNaN_nan : (nan : Binary f).isNaN = true := by
  cases f <;> decide

theorem add_of_isNaN {x y : Binary f} (h : (x.isNaN || y.isNaN) = true) : x.add y = nan :=
  if_pos h

theorem isZero_zero (negative : Bool) : (zero negative : Binary f).isZero = true := by
  cases f <;> cases negative <;> decide

theorem rank_addFinite_of_isZero {x y : Binary f} (hx : x.isZero = true)
    (hy : y.isFinite = true) : (x.addFinite y).rank = y.rank := by
  have hexponent := minExponent_le_scaled y
  have hlow := min_eq_left hexponent
  have hpow : (0 : Int) < 2 ^ (y.scaled.2 - f.minExponent).toNat := pow_pos (by decide) _
  simp only [addFinite, scaled_of_isZero hx, hlow, zero_mul, zero_add]
  split
  · next hsum =>
    have hzero := isZero_of_scaled ((mul_eq_zero_iff_right hpow.ne').mp hsum)
    rw [isZero_iff_rank.mp (isZero_zero _), isZero_iff_rank.mp hzero]
  · next hsum =>
    have hne : y.scaled.1 ≠ 0 := left_ne_zero_of_mul hsum
    have hsign : y.scaled.1 * 2 ^ (y.scaled.2 - f.minExponent).toNat < 0 ↔ y.scaled.1 < 0 :=
      ⟨fun h => neg_of_mul_neg_left h hpow.le, fun h => mul_neg_of_neg_of_pos h hpow⟩
    simp only [hsign]
    rw [← negative_of_scaled hne, ofScaled_scaled hy hexponent]

/-- A zero leaves what it is added to. -/
theorem rank_zero_add {x : Binary f} (hx : x.isZero = true) (y : Binary f) :
    (x.add y).rank = y.rank := by
  have hmagnitude : x.magnitude = 0 := by simpa [isZero] using hx
  have hnan : x.isNaN = false := by simp [isNaN, hmagnitude]
  have hinf : x.isInfinite = false := by
    rw [isInfinite, hmagnitude]
    cases f <;> decide
  cases hy : y.isNaN with
  | true =>
      rw [add_of_isNaN (by rw [hy, Bool.or_true]), rank_of_isNaN isNaN_nan, rank_of_isNaN hy]
  | false =>
      rw [add, hnan, hy, hinf]
      simp only [Bool.or_false, Bool.false_eq_true, if_false]
      split
      · rfl
      · next hfinite =>
        refine rank_addFinite_of_isZero hx ?_
        simp only [isInfinite, isNaN, isFinite, decide_eq_true_iff, decide_eq_false_iff_not] at *
        omega

/-- Floats in one place of the order have sums in one place of the order. -/
theorem rank_add_congr {x x' : Binary f} (h : x.rank = x'.rank) (y : Binary f) :
    (x.add y).rank = (x'.add y).rank := by
  cases hx : x.isNaN with
  | true =>
      have hx' : x'.isNaN = true := by rwa [isNaN_iff_rank, ← h, ← isNaN_iff_rank]
      rw [add_of_isNaN (by rw [hx, Bool.true_or]), add_of_isNaN (by rw [hx', Bool.true_or])]
  | false =>
      have hx' : x'.isNaN = false := by
        rwa [Bool.eq_false_iff, ne_eq, isNaN_iff_rank, ← h, ← isNaN_iff_rank, ← ne_eq,
          ← Bool.eq_false_iff]
      cases hzero : x.isZero with
      | true =>
          have hzero' : x'.isZero = true := by rwa [isZero_iff_rank, ← h, ← isZero_iff_rank]
          rw [rank_zero_add hzero, rank_zero_add hzero']
      | false => rw [eq_of_rank hx hx' hzero h]

end RowCode.Binary
