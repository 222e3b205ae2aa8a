import RowCode.Proofs.Binary.Nearest

/-!
# Rounding twice

Rounding to a single turns half way from one to the next, and every such place is
a double (`exists_double_tie`). So a number that is rounded to a double, and the
double to a single, can come out as another single than if it were rounded once,
but only if the double is half way and the number is not: rounding keeps the
order, hence it cannot carry the number across.

A number with few digits is not that close to a double with few bits
(`eq_of_nearest`). Therefore a number below `2 ^ 53` with at most twelve decimals
is rounded twice as it is rounded once (`nearest_nearest`).
-/

namespace RowCode.Format

variable {f : Format}

/-! ## Close numbers -/

/-- A number is not rounded to a float that it is close to but not equal to, if both are counted in
the same parts of one and one of them is few parts. -/
theorem eq_of_nearest {num den m a b parts : Nat} (hden : 0 < den) (hnum : 0 < num)
    (hm : m < f.infinity) (hnearest : f.nearest num den = m) (hparts : 0 < parts)
    (ha : (num : ℚ) / den * parts = a) (hb : f.value m * parts = b)
    (hfew : a < 2 ^ (f.fractionBits + 1) ∨ b < 2 ^ (f.fractionBits + 1))
    (hlarge : (parts : ℚ) ≤ 2 ^ (-f.minExponent)) : (num : ℚ) / den = f.value m := by
  have hparts' : (0 : ℚ) < parts := by exact_mod_cast hparts
  have hone : 2 ^ f.minExponent * (parts : ℚ) ≤ 1 := by
    rw [zpow_neg, ← one_div, le_div_iff₀ (two_zpow_pos _)] at hlarge
    rwa [mul_comm]
  obtain ⟨place, units, hround, hmin⟩ := f.exists_rounded hnum hden
  obtain rfl : place * 2 ^ f.fractionBits + units = m := by omega
  have hnear := mul_le_mul_of_nonneg_right hround.near hparts'.le
  rw [← hround.value_eq, ← abs_of_pos hparts', ← abs_mul, abs_of_pos hparts', sub_mul, ha, hb]
    at hnear
  set unit : ℚ := 2 ^ (f.minExponent + place) * parts with hunit
  have hsmall : unit < 2 := by
    rcases Nat.eq_zero_or_pos place with rfl | hplace
    · rw [hunit, Nat.cast_zero, Int.add_zero]
      linarith
    · have hlow : ∀ n : Nat, (2 : ℚ) ^ f.fractionBits * unit ≤ n → n < 2 ^ (f.fractionBits + 1) →
          unit < 2 := by
        intro n hle hlt
        have hlt' : (n : ℚ) < 2 ^ f.fractionBits * 2 := by
          rw [← pow_succ]
          exact_mod_cast hlt
        exact lt_of_mul_lt_mul_left (hle.trans_lt hlt') (by positivity)
      rcases hfew with hfew | hfew
      · refine hlow a ?_ hfew
        have hmany := mul_le_mul_of_nonneg_right (hround.many.resolve_left hplace.ne') hparts'.le
        rwa [ha, mul_assoc] at hmany
      · refine hlow b ?_ hfew
        have hmany : (2 : ℚ) ^ f.fractionBits ≤ units := by
          exact_mod_cast hround.le_units.resolve_right hplace.ne'
        rw [← hb, hround.value_eq, mul_assoc]
        exact mul_le_mul_of_nonneg_right hmany (mul_pos (two_zpow_pos _) hparts').le
  have hdistance : |((a : Int) - b : ℚ)| < 1 := by
    rw [Int.cast_natCast]
    linarith
  have heq : (a : Int) - b = 0 := by
    rw [← Int.abs_lt_one_iff]
    exact_mod_cast hdistance
  have hab : (a : ℚ) = b := by exact_mod_cast Int.sub_eq_zero.mp heq
  rw [← ha, ← hb] at hab
  exact mul_right_cancel₀ hparts'.ne' hab

/-! ## Singles by way of doubles -/

/-- Half way from one single to the next is a number with 25 bits. -/
theorem exists_tie_single (m : Nat) :
    ∃ units place : Nat, units < 2 ^ 25 ∧
      Format.single.tie m = units * 2 ^ (-150 + (place : Int)) := by
  obtain ⟨place, units, rfl, hunits, hplace⟩ := Format.single.exists_units m
  refine ⟨2 * units + 1, place, ?_, ?_⟩
  · have : units < 2 ^ 24 := hunits
    omega
  · have habove := value_units_le (f := .single) hunits
      (hplace.imp_left fun hle => hle.trans (Nat.le_succ _))
    have hhalf : (2 : ℚ) ^ (-149 + (place : Int)) = 2 * 2 ^ (-150 + (place : Int)) := by
      rw [← two_zpow_succ]
      congr 1
      omega
    rw [tie, Nat.add_assoc, habove, value_units hunits hplace, Format.minExponent, hhalf]
    push_cast
    ring

/-- It is a double. -/
theorem exists_double_tie {m : Nat} (hm : m < Format.single.infinity) :
    ∃ t < Format.double.infinity, Format.double.value t = Format.single.tie m := by
  obtain ⟨units, place, hunits, htie⟩ := exists_tie_single m
  obtain ⟨t, ht⟩ := Format.double.exists_value (924 + place)
    (hunits.trans (show 2 ^ 25 < 2 ^ 53 by decide))
  have hplace : Format.double.minExponent + ((924 + place : Nat) : Int) = -150 + place := by
    rw [Format.minExponent]
    omega
  rw [hplace, ← htie] at ht
  refine ⟨t, ?_, ht⟩
  rw [lt_infinity_iff, ht]
  have hle : Format.single.value (m + 1) ≤ Format.single.value Format.single.infinity :=
    Format.single.strictMono_value.monotone hm
  rw [value_infinity] at hle
  exact ((Format.single.tie_le m).trans hle).trans_lt (zpow_lt_zpow_right₀ one_lt_two (by decide))

/-- With few digits of which at most twelve are decimals, a number is not rounded to half way from
one single to the next without being there. -/
theorem eq_tie_of_nearest {num k m t : Nat} (hnum : 0 < num) (hfew : num < 2 ^ 53) (hk : k ≤ 12)
    (ht : t < Format.double.infinity) (htie : Format.double.value t = Format.single.tie m)
    (hnearest : Format.double.nearest num (10 ^ k) = t) :
    (num : ℚ) / (10 ^ k : Nat) = Format.single.tie m := by
  obtain ⟨units, place, hunits, hvalue⟩ := exists_tie_single m
  have hfive : 5 ^ k ≤ 5 ^ 12 := Nat.pow_le_pow_right (by decide) hk
  have hlarge : ∀ {parts : Nat}, parts ≤ 2 ^ 200 →
      (parts : ℚ) ≤ 2 ^ (-Format.double.minExponent) := by
    intro parts hparts
    have hpow : (2 : ℚ) ^ (200 : Int) ≤ 2 ^ (-Format.double.minExponent) :=
      zpow_le_zpow_right₀ one_le_two (by decide)
    refine le_trans ?_ hpow
    exact_mod_cast hparts
  rw [← htie] at hvalue ⊢
  rcases le_or_gt 0 (-150 + (place : Int) + k) with hle | hlt
  · obtain ⟨j, hj⟩ := Int.eq_ofNat_of_zero_le hle
    have hscale : (2 : ℚ) ^ (-150 + (place : Int)) * 10 ^ k = 5 ^ k * 2 ^ j := by
      rw [show -150 + (place : Int) = j - k by omega, zpow_sub₀ two_ne_zero, zpow_natCast,
        zpow_natCast, show (10 : ℚ) = 5 * 2 by norm_num, mul_pow]
      field_simp
    have hden : 0 < 10 ^ k := Nat.pow_pos (by decide)
    refine eq_of_nearest (a := num) (b := units * (5 ^ k * 2 ^ j)) hden hnum ht hnearest hden ?_ ?_
      (Or.inl hfew) ?_
    · rw [div_mul_cancel₀]
      exact_mod_cast (pow_pos (by decide : 0 < 10) k).ne'
    · rw [hvalue]
      push_cast
      rw [mul_assoc, hscale]
    · exact hlarge ((Nat.pow_le_pow_right (by decide) hk).trans (by decide))
  · obtain ⟨j, hj⟩ : ∃ j : Nat, -150 + (place : Int) = -((k + j : Nat) : Int) :=
      ⟨150 - place - k, by omega⟩
    have hscale : (2 : ℚ) ^ (-150 + (place : Int)) * (5 ^ k * 2 ^ (k + j)) = 5 ^ k := by
      rw [hj, zpow_neg, zpow_natCast]
      field_simp
    have hparts : 0 < 5 ^ k * 2 ^ (k + j) :=
      Nat.mul_pos (Nat.pow_pos (by decide)) (Nat.two_pow_pos _)
    refine eq_of_nearest (a := num * 2 ^ j) (b := units * 5 ^ k) (Nat.pow_pos (by decide)) hnum
      ht hnearest hparts ?_ ?_ (Or.inr ?_) (hlarge ?_)
    · push_cast
      rw [show (10 : ℚ) = 5 * 2 by norm_num, mul_pow, pow_add]
      field_simp
    · rw [hvalue]
      push_cast
      rw [mul_assoc, hscale]
    · calc units * 5 ^ k ≤ 2 ^ 25 * 5 ^ 12 := Nat.mul_le_mul hunits.le hfive
        _ < 2 ^ 53 := by decide
    · have htwo : 2 ^ (k + j) ≤ 2 ^ 150 := Nat.pow_le_pow_right (by decide) (by omega)
      exact (Nat.mul_le_mul hfive htwo).trans (by decide)

/-- Rounding to a double does not carry such a number to half way, let alone across. -/
theorem eq_of_tie_between {num k m : Nat} (hnum : 0 < num) (hfew : num < 2 ^ 53) (hk : k ≤ 12)
    (hm : m < Format.single.infinity) {v : ℚ}
    (hv : v = Format.double.value (Format.double.nearest num (10 ^ k)))
    (h : (num : ℚ) / (10 ^ k : Nat) ≤ Format.single.tie m ∧ Format.single.tie m ≤ v ∨
      v ≤ Format.single.tie m ∧ Format.single.tie m ≤ (num : ℚ) / (10 ^ k : Nat)) :
    (num : ℚ) / (10 ^ k : Nat) = v := by
  have hden : 0 < 10 ^ k := Nat.pow_pos (by decide)
  obtain ⟨t, ht, htie⟩ := exists_double_tie hm
  obtain ⟨num', den', hden', hratio⟩ : ∃ num' den' : Nat, 0 < den' ∧
      (num' : ℚ) / den' = Format.double.value t :=
    ⟨_, _, Nat.two_pow_pos _, Format.double.ratio_scaled t⟩
  have hexact : Format.double.nearest num' den' = t := nearest_value hden' ht hratio
  have hmono := Format.double.strictMono_value.monotone
  have hhalf : v = Format.single.tie m := by
    rcases h with ⟨hlow, hhigh⟩ | ⟨hlow, hhigh⟩
    · rw [← htie, ← hratio] at hlow
      have hle := hmono (nearest_mono (f := .double) hden hden' hlow)
      rw [hexact, ← hv, htie] at hle
      exact hle.antisymm hhigh
    · rw [← htie, ← hratio] at hhigh
      have hle := hmono (nearest_mono (f := .double) hden' hden hhigh)
      rw [hexact, ← hv, htie] at hle
      exact hlow.antisymm hle
  have hnearest : Format.double.nearest num (10 ^ k) = t :=
    Format.double.strictMono_value.injective (by rw [← hv, hhalf, htie])
  rw [hhalf]
  exact eq_tie_of_nearest hnum hfew hk ht htie hnearest

/-- A number with few digits, of which at most twelve are decimals, is rounded to a double and then
to a single as it is rounded to a single. -/
theorem nearest_nearest {num k num' den' : Nat} (hfew : num < 2 ^ 53) (hk : k ≤ 12)
    (hden' : 0 < den')
    (h : (num' : ℚ) / den' = Format.double.value (Format.double.nearest num (10 ^ k))) :
    Format.single.nearest num' den' = Format.single.nearest num (10 ^ k) := by
  have hden : 0 < 10 ^ k := Nat.pow_pos (by decide)
  rcases Nat.eq_zero_or_pos num with rfl | hnum
  · exact nearest_congr hden' hden (by rw [h]; simp [nearest, value_zero])
  have hbounded := Format.single.nearest_le_infinity
  by_contra hne
  refine hne (nearest_congr hden' hden (Eq.symm ?_))
  rcases Nat.lt_or_gt_of_ne hne with hlt | hlt
  · have hm := hlt.trans_le (hbounded num (10 ^ k))
    refine eq_of_tie_between hnum hfew hk hm h (Or.inr ⟨?_, ?_⟩)
    · exact le_of_not_gt fun hgt => lt_irrefl _ (lt_nearest_of_tie_lt hden' hm hgt)
    · exact le_of_not_gt fun hgt => hlt.not_ge (nearest_le_of_lt_tie hden hgt)
  · have hm := hlt.trans_le (hbounded num' den')
    refine eq_of_tie_between hnum hfew hk hm h (Or.inl ⟨?_, ?_⟩)
    · exact le_of_not_gt fun hgt => lt_irrefl _ (lt_nearest_of_tie_lt hden hm hgt)
    · exact le_of_not_gt fun hgt => hlt.not_ge (nearest_le_of_lt_tie hden' hgt)

end RowCode.Format
