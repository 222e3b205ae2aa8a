import Mathlib.Tactic.FieldSimp
import RowCode.Proofs.Binary.Value

/-!
# Floats that need no rounding

A number that has a magnitude is rounded to it (`nearest_value`), so what can be
written with few enough units is kept as it is. Two uses of that are made here:
a float with its fraction rounded away (`exists_round`), and a float as a double
(`value_widen`).
-/

namespace RowCode

/-! ## The place of a fraction -/

theorem floorLog2_spec {num den : Nat} (hnum : 0 < num) (hden : 0 < den) :
    (2 : ℚ) ^ floorLog2 num den ≤ num / den ∧ (num : ℚ) / den < 2 ^ (floorLog2 num den + 1) := by
  have hden' : (0 : ℚ) < den := by exact_mod_cast hden
  have hnumLow : (2 : ℚ) ^ num.log2 ≤ num := by exact_mod_cast Nat.log2_self_le hnum.ne'
  have hnumHigh : (num : ℚ) < 2 ^ (num.log2 + 1) := by exact_mod_cast Nat.lt_log2_self
  have hdenLow : (2 : ℚ) ^ den.log2 ≤ den := by exact_mod_cast Nat.log2_self_le hden.ne'
  have hdenHigh : (den : ℚ) < 2 ^ (den.log2 + 1) := by exact_mod_cast Nat.lt_log2_self
  unfold floorLog2
  dsimp only
  set g : Int := (num.log2 : Int) - den.log2 with hg
  have htest : den * 2 ^ g.toNat ≤ num * 2 ^ (-g).toNat ↔ (2 : ℚ) ^ g ≤ num / den := by
    rw [two_zpow_eq_div, div_le_div_iff₀ (by positivity) hden', mul_comm den]
    exact_mod_cast Iff.rfl
  -- the quotient lies between the powers around the one of the difference
  have hhigh : (num : ℚ) / den < 2 ^ (g + 1) := by
    have hsum : ((num.log2 + 1 : Nat) : Int) = g + 1 + den.log2 := by omega
    rw [div_lt_iff₀ hden', mul_comm]
    calc (num : ℚ) < 2 ^ (num.log2 + 1) := hnumHigh
      _ = 2 ^ den.log2 * 2 ^ (g + 1) := by rw [← two_zpow_add, ← hsum, zpow_natCast]
      _ ≤ den * 2 ^ (g + 1) := mul_le_mul_of_nonneg_right hdenLow (two_zpow_pos _).le
  have hlow : (2 : ℚ) ^ (g - 1) ≤ num / den := by
    have hsum : (num.log2 : Int) = g - 1 + (den.log2 + 1 : Nat) := by omega
    rw [le_div_iff₀ hden', mul_comm]
    calc (den : ℚ) * 2 ^ (g - 1) ≤ 2 ^ (den.log2 + 1) * 2 ^ (g - 1) :=
          mul_le_mul_of_nonneg_right hdenHigh.le (two_zpow_pos _).le
      _ = 2 ^ num.log2 := by rw [← two_zpow_add, ← hsum, zpow_natCast]
      _ ≤ num := hnumLow
  split
  · next h => exact ⟨htest.mp h, hhigh⟩
  · next h =>
    rw [Int.sub_add_cancel]
    exact ⟨hlow, not_le.mp (mt htest.mpr h)⟩

/-- A number between two powers of two has the lower one. -/
theorem floorLog2_eq {num den : Nat} (hden : 0 < den) {e : Int} (hlow : (2 : ℚ) ^ e ≤ num / den)
    (hhigh : (num : ℚ) / den < 2 ^ (e + 1)) : floorLog2 num den = e := by
  have hnum : 0 < num := by
    rcases Nat.eq_zero_or_pos num with rfl | hnum
    · have := two_zpow_pos e
      rw [Nat.cast_zero, zero_div] at hlow
      linarith
    · exact hnum
  obtain ⟨hlow', hhigh'⟩ := floorLog2_spec hnum hden
  have hle := (zpow_lt_zpow_iff_right₀ one_lt_two).mp (hlow.trans_lt hhigh')
  have hge := (zpow_lt_zpow_iff_right₀ one_lt_two).mp (hlow'.trans_lt hhigh)
  omega

namespace Format

variable {f : Format}

/-- The unit that a number with a magnitude is counted in is the one of the
magnitude. -/
theorem place_eq {num den place units : Nat} (hden : 0 < den) (hnum : 0 < num)
    (hunits : units < 2 ^ (f.fractionBits + 1)) (hplace : 2 ^ f.fractionBits ≤ units ∨ place = 0)
    (hvalue : (num : ℚ) / den = units * 2 ^ (f.minExponent + place)) :
    max f.minExponent (floorLog2 num den - f.fractionBits) = f.minExponent + place := by
  have hpow := two_zpow_pos (f.minExponent + place)
  have hbelow : ∀ {bits : Nat}, units < 2 ^ bits →
      (num : ℚ) / den < 2 ^ (f.minExponent + place + bits) := by
    intro bits hlt
    have hlt' : (units : ℚ) < 2 ^ bits := by exact_mod_cast hlt
    rw [hvalue, two_zpow_add _ bits]
    exact mul_lt_mul_of_pos_right hlt' hpow
  rcases Nat.lt_or_ge units (2 ^ f.fractionBits) with hlow | hhigh
  · obtain rfl : place = 0 := by omega
    have hlog := (floorLog2_spec hnum hden).1
    have := (zpow_lt_zpow_iff_right₀ one_lt_two).mp (hlog.trans_lt (hbelow hlow))
    omega
  · have habove : (2 : ℚ) ^ (f.minExponent + place + f.fractionBits) ≤ num / den := by
      rw [hvalue, two_zpow_add _ f.fractionBits]
      exact mul_le_mul_of_nonneg_right (by exact_mod_cast hhigh) hpow.le
    have hhigh' := hbelow hunits
    rw [Nat.cast_succ, ← add_assoc] at hhigh'
    rw [floorLog2_eq hden habove hhigh']
    omega

/-- A number that is a finite float is rounded to itself. -/
theorem nearest_value {num den magnitude : Nat} (hden : 0 < den) (hfinite : magnitude < f.infinity)
    (hvalue : (num : ℚ) / den = f.value magnitude) : f.nearest num den = magnitude := by
  have hden' : (0 : ℚ) < den := by exact_mod_cast hden
  unfold nearest
  rcases Nat.eq_zero_or_pos num with rfl | hnum
  · have hzero : f.value 0 = f.value magnitude := by rw [← hvalue, f.value_zero]; simp
    rw [if_pos rfl]
    exact f.strictMono_value.injective hzero
  · obtain ⟨place, units, rfl, hunits, hplace⟩ := f.exists_units magnitude
    rw [value_units hunits hplace] at hvalue
    dsimp only
    rw [if_neg hnum.ne', place_eq hden hnum hunits hplace hvalue]
    set q : Int := f.minExponent + place with hq
    have hexact : num * 2 ^ (-q).toNat = units * (den * 2 ^ q.toNat) := by
      rw [two_zpow_eq_div, div_eq_iff hden'.ne'] at hvalue
      have hpow : (0 : ℚ) < 2 ^ (-q).toNat := by positivity
      have : (num : ℚ) * 2 ^ (-q).toNat = units * (den * 2 ^ q.toNat) := by
        rw [hvalue]
        field_simp
      exact_mod_cast this
    have hpos : 0 < den * 2 ^ q.toNat := Nat.mul_pos hden (Nat.two_pow_pos _)
    rw [hexact, roundDiv_of_dvd _ (Nat.dvd_mul_left _ _) hpos, Nat.mul_div_cancel _ hpos,
      show (q - f.minExponent).toNat = place by omega, Nat.min_eq_right hfinite.le]

end Format

namespace Binary

variable {f : Format}

/-- A fraction whose value is that of a finite magnitude becomes the float with
this magnitude. -/
theorem ofRatio_eq (negative : Bool) {num den magnitude : Nat} (hden : 0 < den)
    (hfinite : magnitude < f.infinity) (hvalue : (num : ℚ) / den = f.value magnitude) :
    (ofRatio negative num den : Binary f) = ofMagnitude negative magnitude := by
  rw [ofRatio, Format.nearest_value hden hfinite hvalue]

/-! ## Integers -/

/-- An integer that is few enough units in some place. -/
theorem ofInt_exact {n : Int} {units shift : Nat} (hn : n.natAbs = units * 2 ^ shift)
    (hunits : units < 2 ^ (f.fractionBits + 1))
    (hlt : (n.natAbs : ℚ) < 2 ^ (2 - f.minExponent - f.fractionBits)) :
    (ofInt n : Binary f).isFinite = true ∧ (ofInt n : Binary f).value = n := by
  have hplace : f.minExponent + ((shift + (-f.minExponent).toNat : Nat) : Int) = shift := by
    cases f <;> simp [Format.minExponent]
  obtain ⟨magnitude, hvalue⟩ := f.exists_value (shift + (-f.minExponent).toNat) hunits
  have hvalue' : f.value magnitude = n.natAbs := by
    rw [hvalue, hplace, hn, zpow_natCast]
    push_cast
    rfl
  have hfinite : magnitude < f.infinity := by rwa [Format.lt_infinity_iff, hvalue']
  have heq : (ofInt n : Binary f) = ofMagnitude (n < 0) magnitude :=
    ofRatio_eq _ Nat.one_pos hfinite (by rw [hvalue', Nat.cast_one, div_one])
  rw [heq]
  refine ⟨isFinite_ofMagnitude _ hfinite, ?_⟩
  rw [value_ofMagnitude _ hfinite, hvalue', Nat.cast_natAbs]
  by_cases hneg : n < 0
  · simp [hneg, abs_of_neg hneg]
  · simp [hneg, abs_of_nonneg (Int.not_lt.mp hneg)]

/-! ## Rounding to an integer -/

theorem roundDiv_le (tie : Tie) (num den : Nat) : roundDiv tie num den ≤ num / den + 1 := by
  unfold roundDiv
  dsimp only
  split
  · omega
  · split
    · exact le_rfl
    · cases tie with
      | toEven => exact Nat.add_le_add_left (by omega) _
      | away => exact le_rfl

/-- A float loses its fraction to a float: in places above the point there is
none, and below the point few units are left of it. -/
theorem exists_roundDiv_ratio {x : Binary f} (hx : x.isFinite = true) :
    ∃ magnitude < f.infinity, f.value magnitude = roundDiv .away x.ratio.1 x.ratio.2 := by
  have hfinite := magnitude_lt_of_isFinite hx
  obtain ⟨place, units, hmagnitude, hunits, hplace⟩ := f.exists_units x.magnitude
  have hratio : x.ratio = (units * 2 ^ (f.minExponent + place).toNat,
      2 ^ (-(f.minExponent + place)).toNat) := by
    rw [ratio, hmagnitude, Format.scaled_units hunits hplace]
  rcases lt_or_ge (f.minExponent + place) 0 with hneg | hpos
  · have hround : roundDiv .away x.ratio.1 x.ratio.2 ≤ 2 ^ f.fractionBits := by
      obtain ⟨n, hn⟩ : ∃ n, (-(f.minExponent + place)).toNat = n + 1 :=
        ⟨(-(f.minExponent + place)).toNat - 1, by omega⟩
      have hhalf : units / 2 ^ (n + 1) < 2 ^ f.fractionBits := by
        have htwo : 2 ≤ 2 ^ (n + 1) := Nat.le_self_pow (Nat.succ_ne_zero n) 2
        have hle := Nat.mul_le_mul_left (2 ^ f.fractionBits) htwo
        rw [Nat.div_lt_iff_lt_mul (Nat.two_pow_pos _)]
        omega
      have hnum : x.ratio.1 = units := by
        rw [hratio, show (f.minExponent + place).toNat = 0 by omega, pow_zero, mul_one]
      have hden : x.ratio.2 = 2 ^ (n + 1) := by rw [hratio, hn]
      rw [hnum, hden]
      exact (roundDiv_le .away units (2 ^ (n + 1))).trans hhalf
    obtain ⟨magnitude, hvalue⟩ := f.exists_value (-f.minExponent).toNat
      (hround.trans_lt (Nat.pow_lt_pow_succ one_lt_two))
    have hone : f.minExponent + ((-f.minExponent).toNat : Int) = 0 := by cases f <;> rfl
    rw [hone, zpow_zero, mul_one] at hvalue
    refine ⟨magnitude, ?_, hvalue⟩
    rw [Format.lt_infinity_iff, hvalue]
    calc ((roundDiv .away x.ratio.1 x.ratio.2 : Nat) : ℚ) ≤ 2 ^ f.fractionBits := by
          exact_mod_cast hround
      _ < 2 ^ (2 - f.minExponent - f.fractionBits) := by
        rw [← zpow_natCast]
        exact zpow_lt_zpow_right₀ one_lt_two (by cases f <;> decide)
  · refine ⟨x.magnitude, hfinite, ?_⟩
    have hden : x.ratio.2 = 1 := by
      rw [hratio, show (-(f.minExponent + place)).toNat = 0 by omega, pow_zero]
    rw [← ratio_eq, hden, roundDiv_one, Nat.cast_one, div_one]

/-- Rounding is to the nearest integer, and that is a float. -/
theorem exists_round {x : Binary f} (hx : x.isFinite = true) :
    ∃ n : Int, IsNearest x.value n ∧ x.round.isFinite = true ∧ x.round.value = n := by
  obtain ⟨magnitude, hfinite, hvalue⟩ := exists_roundDiv_ratio hx
  have hnear := isNearest_roundDiv x.ratio.1 x.ratio_pos
  set k := roundDiv .away x.ratio.1 x.ratio.2 with hk
  rw [ratio_eq] at hnear
  have hround : x.round = ofMagnitude x.negative magnitude := by
    have hone : (k : ℚ) / (1 : Nat) = f.value magnitude := by rw [hvalue, Nat.cast_one, div_one]
    unfold round roundToInt?
    rw [if_pos hx]
    dsimp only
    rw [← hk]
    split <;> simpa using ofRatio_eq _ Nat.one_pos hfinite hone
  rw [hround, value_ofMagnitude _ hfinite, value_eq, hvalue]
  refine ⟨if x.negative then -(k : Int) else k, ?_, isFinite_ofMagnitude _ hfinite, ?_⟩
  · split
    · exact hnear.neg
    · exact hnear
  · split <;> simp

theorem round_of_isNearest {x : Binary f} (hx : x.isFinite = true) {n : Int}
    (hn : IsNearest x.value n) : x.round.isFinite = true ∧ x.round.value = n := by
  obtain ⟨k, hk, hround⟩ := exists_round hx
  obtain rfl := hk.unique hn
  exact hround

theorem round_of_not_isFinite {x : Binary f} (hx : x.isFinite = false) : x.round = x := by
  simp [round, roundToInt?, hx]

/-- A float without a fraction is left with its value. -/
theorem truncate?_of_value {x : Binary f} (hx : x.isFinite = true) {n : Int}
    (hn : x.value = n) : x.truncate? = some n := by
  obtain ⟨k, hk⟩ : ∃ k, k = n.natAbs := ⟨_, rfl⟩
  have habs : f.value x.magnitude = k := by
    rw [← abs_value, hn, hk, Nat.cast_natAbs, Int.cast_abs]
  have hquot : x.ratio.1 / x.ratio.2 = k := by
    have hden : (x.ratio.2 : ℚ) ≠ 0 := by exact_mod_cast x.ratio_pos.ne'
    rw [← ratio_eq, div_eq_iff hden] at habs
    rw [show x.ratio.1 = k * x.ratio.2 by exact_mod_cast habs, Nat.mul_div_cancel _ x.ratio_pos]
  rw [value_eq, habs] at hn
  unfold truncate?
  rw [if_pos hx]
  dsimp only
  rw [hquot]
  split
  · next hneg =>
    rw [if_pos hneg] at hn
    exact congrArg some (by exact_mod_cast hn)
  · next hpos =>
    rw [if_neg hpos] at hn
    exact congrArg some (by exact_mod_cast hn)

theorem truncate?_of_not_isFinite {x : Binary f} (hx : x.isFinite = false) :
    x.truncate? = none := by
  simp [truncate?, hx]

/-! ## Singles as doubles -/

theorem convert_of_isFinite {g : Format} {x : Binary f} (hx : x.isFinite = true) :
    (x.convert : Binary g) = ofRatio x.negative x.ratio.1 x.ratio.2 := by
  have hbounded : x.isInfinite = false := by
    simpa [isInfinite] using (magnitude_lt_of_isFinite hx).ne
  unfold convert
  rw [isNaN_of_isFinite hx, hbounded]
  rfl

/-- Every single is a double. -/
theorem widen_finite : ∀ {f : Format} {x : Binary f}, x.isFinite = true →
    x.widen.isFinite = true ∧ x.widen.value = x.value
  | .double, _, hx => ⟨hx, rfl⟩
  | .single, x, hx => by
      have hlt := magnitude_lt_of_isFinite hx
      obtain ⟨place, units, hmagnitude, hunits, hplace⟩ := Format.single.exists_units x.magnitude
      have hvalue : Format.single.value x.magnitude = units * 2 ^ (-149 + (place : Int)) := by
        rw [hmagnitude, Format.value_units hunits hplace, Format.minExponent]
      obtain ⟨magnitude, hwide⟩ := Format.double.exists_value (925 + place)
        (hunits.trans (show 2 ^ 24 < 2 ^ 53 by decide))
      have hplace' : Format.double.minExponent + ((925 + place : Nat) : Int) = -149 + place := by
        rw [Format.minExponent]
        omega
      rw [hplace', ← hvalue] at hwide
      have hfinite : magnitude < Format.double.infinity := by
        rw [Format.lt_infinity_iff, hwide]
        rw [Format.lt_infinity_iff] at hlt
        exact hlt.trans (zpow_lt_zpow_right₀ one_lt_two (by decide))
      have heq : x.widen = ofMagnitude x.negative magnitude :=
        (convert_of_isFinite hx).trans (ofRatio_eq _ x.ratio_pos hfinite (by rw [ratio_eq, hwide]))
      rw [heq, value_ofMagnitude _ hfinite, value_eq, hwide]
      exact ⟨isFinite_ofMagnitude _ hfinite, rfl⟩

end Binary

end RowCode
