import Mathlib.Algebra.Order.Field.Power
import Mathlib.Order.Compare
import RowCode.Proofs.Rounding
import RowCode.Binary.Round

/-!
# Values of floats

The number that a finite float stands for (`Binary.value`). A magnitude counts
units of the last place, and how often that place has moved up; told like this
(`exists_units`), the next magnitude is the next larger number, so the order of
floats is the order of their values (`partialCompare_of_isFinite`).
-/

namespace RowCode

theorem two_zpow_pos (e : Int) : (0 : ℚ) < 2 ^ e :=
  zpow_pos two_pos e

theorem two_zpow_add (e : Int) (n : Nat) : (2 : ℚ) ^ (e + n) = 2 ^ n * 2 ^ e := by
  rw [zpow_add₀ two_ne_zero, zpow_natCast, mul_comm]

theorem two_zpow_succ (e : Int) : (2 : ℚ) ^ (e + 1) = 2 * 2 ^ e := by
  simpa using two_zpow_add e 1

/-- A power of two as a fraction of natural numbers. -/
theorem two_zpow_eq_div (e : Int) : (2 : ℚ) ^ e = 2 ^ e.toNat / 2 ^ (-e).toNat := by
  rcases le_total 0 e with he | he
  · obtain ⟨n, rfl⟩ := Int.eq_ofNat_of_zero_le he
    simp
  · obtain ⟨n, hn⟩ := Int.eq_ofNat_of_zero_le (Int.neg_nonneg.mpr he)
    obtain rfl : e = -n := by omega
    simp

/-! ## Magnitudes -/

namespace Format

variable {f : Format}

/-- The number that a finite magnitude stands for. -/
def value (f : Format) (magnitude : Nat) : ℚ :=
  (f.scaled magnitude).1 * 2 ^ (f.scaled magnitude).2

/-- The value as a fraction of natural numbers. -/
theorem ratio_scaled (f : Format) (magnitude : Nat) :
    (((f.scaled magnitude).1 * 2 ^ (f.scaled magnitude).2.toNat : Nat) : ℚ) /
      ((2 ^ (-(f.scaled magnitude).2).toNat : Nat) : ℚ) = f.value magnitude := by
  rw [value, two_zpow_eq_div]
  push_cast
  ring

/-- A magnitude is a number of units and the place they are counted in. Above
the lowest place there are so many units that the place is as high as can be. -/
theorem exists_units (f : Format) (magnitude : Nat) :
    ∃ place units : Nat, magnitude = place * 2 ^ f.fractionBits + units ∧
      units < 2 ^ (f.fractionBits + 1) ∧ (2 ^ f.fractionBits ≤ units ∨ place = 0) := by
  have hsplit := Nat.div_add_mod' magnitude (2 ^ f.fractionBits)
  have hmod := Nat.mod_lt magnitude (Nat.two_pow_pos f.fractionBits)
  rcases Nat.eq_zero_or_pos (magnitude / 2 ^ f.fractionBits) with hfield | hfield
  · refine ⟨0, magnitude, by omega, ?_, Or.inr rfl⟩
    rw [hfield] at hsplit
    omega
  · obtain ⟨place, hplace⟩ := Nat.exists_eq_succ_of_ne_zero (Nat.ne_of_gt hfield)
    refine ⟨place, 2 ^ f.fractionBits + magnitude % 2 ^ f.fractionBits, ?_, by omega, by omega⟩
    rw [hplace, Nat.succ_mul] at hsplit
    omega

theorem scaled_units {place units : Nat} (hunits : units < 2 ^ (f.fractionBits + 1))
    (hplace : 2 ^ f.fractionBits ≤ units ∨ place = 0) :
    f.scaled (place * 2 ^ f.fractionBits + units) = (units, f.minExponent + place) := by
  have hpos := Nat.two_pow_pos f.fractionBits
  unfold scaled
  dsimp only
  by_cases hlow : units < 2 ^ f.fractionBits
  · obtain rfl : place = 0 := by omega
    simp [Nat.div_eq_of_lt hlow, Nat.mod_eq_of_lt hlow]
  · obtain ⟨fraction, rfl⟩ := Nat.exists_eq_add_of_le (Nat.le_of_not_lt hlow)
    have hfraction : fraction < 2 ^ f.fractionBits := by omega
    have hshift : place * 2 ^ f.fractionBits + (2 ^ f.fractionBits + fraction) =
        fraction + 2 ^ f.fractionBits * (place + 1) := by ring
    rw [hshift, Nat.add_mul_div_left _ _ hpos, Nat.add_mul_mod_self_left,
      Nat.div_eq_of_lt hfraction, Nat.mod_eq_of_lt hfraction]
    simp

theorem value_units {place units : Nat} (hunits : units < 2 ^ (f.fractionBits + 1))
    (hplace : 2 ^ f.fractionBits ≤ units ∨ place = 0) :
    f.value (place * 2 ^ f.fractionBits + units) = units * 2 ^ (f.minExponent + place) := by
  rw [value, scaled_units hunits hplace]

/-- The next magnitude is one unit more. Behind the last number of units comes
half as many, twice as large. -/
theorem value_lt_succ (f : Format) (magnitude : Nat) :
    f.value magnitude < f.value (magnitude + 1) := by
  obtain ⟨place, units, rfl, hunits, hplace⟩ := f.exists_units magnitude
  rw [value_units hunits hplace]
  have hpow := two_zpow_pos (f.minExponent + place)
  by_cases hlast : units + 1 < 2 ^ (f.fractionBits + 1)
  · rw [Nat.add_assoc, value_units hlast (by omega)]
    push_cast
    linarith
  · have hnext : place * 2 ^ f.fractionBits + units + 1 =
        (place + 1) * 2 ^ f.fractionBits + 2 ^ f.fractionBits := by
      have : units + 1 = 2 ^ f.fractionBits + 2 ^ f.fractionBits := by omega
      rw [Nat.add_assoc, this]
      ring
    have hlt : (units : ℚ) < 2 * 2 ^ f.fractionBits := by
      have : units < 2 * 2 ^ f.fractionBits := by omega
      exact_mod_cast this
    rw [hnext, value_units (by omega) (Or.inl le_rfl), Nat.cast_succ, ← add_assoc,
      two_zpow_succ]
    push_cast
    calc (units : ℚ) * 2 ^ (f.minExponent + place)
        < 2 * 2 ^ f.fractionBits * 2 ^ (f.minExponent + place) := mul_lt_mul_of_pos_right hlt hpow
      _ = 2 ^ f.fractionBits * (2 * 2 ^ (f.minExponent + place)) := by ring

theorem strictMono_value (f : Format) : StrictMono f.value :=
  strictMono_nat_of_lt_succ f.value_lt_succ

theorem value_zero (f : Format) : f.value 0 = 0 := by
  have hzero : f.scaled 0 = (0, f.minExponent) := by simp [scaled]
  simp [value, hzero]

theorem value_nonneg (f : Format) (magnitude : Nat) : 0 ≤ f.value magnitude := by
  rw [← f.value_zero]
  exact f.strictMono_value.monotone (Nat.zero_le magnitude)

/-- The magnitude of infinity continues the list with the power of two that all
finite numbers are below. -/
theorem value_infinity (f : Format) :
    f.value f.infinity = 2 ^ (2 - f.minExponent - f.fractionBits) := by
  have hunits :
      f.infinity = (2 ^ f.exponentBits - 2) * 2 ^ f.fractionBits + 2 ^ f.fractionBits := by
    cases f <;> rfl
  rw [hunits, value_units (Nat.pow_lt_pow_succ (by decide)) (Or.inl le_rfl), Nat.cast_pow,
    Nat.cast_ofNat, ← zpow_natCast, ← zpow_add₀ two_ne_zero]
  cases f <;> rfl

/-- Few enough units have a magnitude in every place. -/
theorem exists_value (f : Format) (place : Nat) : ∀ {units : Nat},
    units < 2 ^ (f.fractionBits + 1) →
      ∃ magnitude, f.value magnitude = units * 2 ^ (f.minExponent + place) := by
  induction place with
  | zero => exact fun hunits => ⟨_, value_units hunits (Or.inr rfl)⟩
  | succ place ih =>
      intro units hunits
      by_cases hhigh : 2 ^ f.fractionBits ≤ units
      · exact ⟨_, value_units hunits (Or.inl hhigh)⟩
      · obtain ⟨magnitude, hvalue⟩ := ih (show 2 * units < 2 ^ (f.fractionBits + 1) by omega)
        refine ⟨magnitude, ?_⟩
        rw [hvalue, Nat.cast_succ, ← add_assoc, two_zpow_succ]
        push_cast
        ring

theorem lt_infinity_iff {f : Format} {magnitude : Nat} :
    magnitude < f.infinity ↔ f.value magnitude < 2 ^ (2 - f.minExponent - f.fractionBits) := by
  rw [← f.value_infinity, f.strictMono_value.lt_iff_lt]

end Format

/-! ## Floats -/

namespace Binary

variable {f : Format}

/-- The number that a finite float stands for. -/
def value (x : Binary f) : ℚ :=
  x.scaled.1 * 2 ^ x.scaled.2

theorem value_eq (x : Binary f) :
    x.value = if x.negative then -f.value x.magnitude else f.value x.magnitude := by
  unfold value scaled Format.value
  dsimp only
  split
  · push_cast
    ring
  · simp

theorem abs_value (x : Binary f) : |x.value| = f.value x.magnitude := by
  have hnonneg := f.value_nonneg x.magnitude
  rw [value_eq]
  split
  · rw [abs_neg, abs_of_nonneg hnonneg]
  · exact abs_of_nonneg hnonneg

theorem ratio_pos (x : Binary f) : 0 < x.ratio.2 :=
  Nat.two_pow_pos _

theorem ratio_eq (x : Binary f) : (x.ratio.1 : ℚ) / x.ratio.2 = f.value x.magnitude :=
  f.ratio_scaled x.magnitude

/-! ### Floats by sign and magnitude -/

theorem infinity_lt_signBit (f : Format) : f.infinity < f.signBit := by
  cases f <;> decide

theorem toNat_ofMagnitude (negative : Bool) {magnitude : Nat} (h : magnitude < f.signBit) :
    (ofMagnitude negative magnitude : Binary f).bits.toNat =
      if negative then f.signBit + magnitude else magnitude := by
  have hwidth : 2 ^ f.width = 2 * f.signBit := by
    cases f <;> rfl
  unfold ofMagnitude
  rw [BitVec.toNat_ofNat, hwidth]
  apply Nat.mod_eq_of_lt
  split <;> omega

theorem magnitude_ofMagnitude (negative : Bool) {magnitude : Nat} (h : magnitude < f.signBit) :
    (ofMagnitude negative magnitude : Binary f).magnitude = magnitude := by
  unfold Binary.magnitude
  rw [toNat_ofMagnitude negative h]
  split
  · rw [Nat.add_mod_left, Nat.mod_eq_of_lt h]
  · exact Nat.mod_eq_of_lt h

theorem negative_ofMagnitude (negative : Bool) {magnitude : Nat} (h : magnitude < f.signBit) :
    (ofMagnitude negative magnitude : Binary f).negative = negative := by
  unfold Binary.negative
  rw [toNat_ofMagnitude negative h]
  cases negative with
  | true => simp
  | false => simpa using h

theorem isFinite_ofMagnitude (negative : Bool) {magnitude : Nat} (h : magnitude < f.infinity) :
    (ofMagnitude negative magnitude : Binary f).isFinite = true := by
  simpa [isFinite, magnitude_ofMagnitude negative (h.trans (infinity_lt_signBit f))] using h

theorem value_ofMagnitude (negative : Bool) {magnitude : Nat} (h : magnitude < f.infinity) :
    (ofMagnitude negative magnitude : Binary f).value =
      if negative then -f.value magnitude else f.value magnitude := by
  have hlt := h.trans (infinity_lt_signBit f)
  rw [value_eq, negative_ofMagnitude negative hlt, magnitude_ofMagnitude negative hlt]

/-! ### Order -/

theorem magnitude_lt_of_isFinite {x : Binary f} (h : x.isFinite = true) :
    x.magnitude < f.infinity := by
  simpa [isFinite] using h

theorem isNaN_of_isFinite {x : Binary f} (h : x.isFinite = true) : x.isNaN = false := by
  have hlt := magnitude_lt_of_isFinite h
  simpa [isNaN] using hlt.le

/-- The value as a function of the place in the order. -/
def ofRank (f : Format) (rank : Int) : ℚ :=
  if rank < 0 then -f.value rank.natAbs else f.value rank.natAbs

theorem ofRank_lt_ofRank (f : Format) {r s : Int} (hrs : r < s) : ofRank f r < ofRank f s := by
  have hzero := f.value_zero
  unfold ofRank
  by_cases hr : r < 0
  · by_cases hs : s < 0
    · rw [if_pos hr, if_pos hs, neg_lt_neg_iff]
      exact f.strictMono_value (by omega)
    · have hlt : f.value 0 < f.value r.natAbs := f.strictMono_value (by omega)
      have hnonneg := f.value_nonneg s.natAbs
      rw [if_pos hr, if_neg hs]
      linarith
  · rw [if_neg hr, if_neg (by omega)]
    exact f.strictMono_value (by omega)

theorem value_eq_ofRank {x : Binary f} (h : x.isNaN = false) : x.value = ofRank f x.rank := by
  rw [value_eq, rank, h]
  unfold ofRank
  by_cases hneg : x.negative = true
  · by_cases hzero : x.magnitude = 0
    · simp [hneg, hzero, f.value_zero]
    · simp [hneg, hzero]
  · simp [hneg]

/-- Finite floats are ordered by value. -/
theorem partialCompare_of_isFinite {x y : Binary f} (hx : x.isFinite = true)
    (hy : y.isFinite = true) : x.partialCompare y = some (compare x.value y.value) := by
  have hnx := isNaN_of_isFinite hx
  have hny := isNaN_of_isFinite hy
  have hmono : StrictMono (ofRank f) := fun _ _ hrs => ofRank_lt_ofRank f hrs
  have hcompare := hmono.cmp_map_eq x.rank y.rank
  rw [cmp_eq_compare, cmp_eq_compare] at hcompare
  rw [value_eq_ofRank hnx, value_eq_ofRank hny, hcompare]
  simp [partialCompare, hnx, hny]

end Binary

end RowCode
