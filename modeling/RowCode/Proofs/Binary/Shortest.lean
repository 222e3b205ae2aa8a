import RowCode.Binary.Shortest
import RowCode.Proofs.Binary.Nearest

/-!
# The shortest digits read back

A positive finite float is written with at most `enoughDigits` digits, and they
round to it (`shortest_spec`). Whatever number of digits is tried, the digits
that are taken read back; so it is enough that seventeen are never refused
(`neighbour?_isSome`). They are not: on a grid of seventeen digits the distance
to the nearest number is less than half a unit of the float, also below a power
of two, as `2 ^ 54 < 2 * 10 ^ 16`.
-/

namespace RowCode

/-! ## Powers of ten -/

/-- A power of ten as a fraction of natural numbers. -/
theorem ten_zpow_eq_div (e : Int) : (10 : ℚ) ^ e = 10 ^ e.toNat / 10 ^ (-e).toNat := by
  rcases le_total 0 e with he | he
  · obtain ⟨n, rfl⟩ := Int.eq_ofNat_of_zero_le he
    simp
  · obtain ⟨n, hn⟩ := Int.eq_ofNat_of_zero_le (Int.neg_nonneg.mpr he)
    obtain rfl : e = -n := by omega
    simp

theorem ten_zpow_pos (e : Int) : (0 : ℚ) < 10 ^ e :=
  zpow_pos (by norm_num) e

theorem Text.digitCount_spec {n : Nat} (hn : 0 < n) :
    10 ^ (digitCount n - 1) ≤ n ∧ n < 10 ^ digitCount n := by
  induction n using Nat.strongRecOn with
  | ind n ih =>
      rw [digitCount, if_neg hn.ne', Nat.add_sub_cancel]
      rcases Nat.eq_zero_or_pos (n / 10) with hzero | hpos
      · rw [hzero, digitCount, if_pos rfl]
        omega
      · obtain ⟨hlow, hhigh⟩ := ih (n / 10) (by omega) hpos
        have hcount : digitCount (n / 10) = digitCount (n / 10) - 1 + 1 := by
          rw [digitCount, if_neg hpos.ne']
          omega
        constructor
        · rw [hcount, Nat.pow_succ]
          omega
        · rw [Nat.pow_succ]
          omega

theorem Text.exists_digitCount {n : Nat} (hn : 0 < n) :
    ∃ c, digitCount n = c + 1 ∧ 10 ^ c ≤ n ∧ n < 10 ^ (c + 1) := by
  obtain ⟨hlow, hhigh⟩ := digitCount_spec hn
  have hcount : digitCount n = digitCount n - 1 + 1 := by
    rw [digitCount, if_neg hn.ne']
    omega
  exact ⟨digitCount n - 1, hcount, hlow, by rwa [← hcount]⟩

/-- The order of a positive fraction is the power of ten right above it. -/
theorem decimalOrder_spec {num den : Nat} (hnum : 0 < num) (hden : 0 < den) :
    (10 : ℚ) ^ (decimalOrder num den - 1) ≤ num / den ∧
      (num : ℚ) / den < 10 ^ decimalOrder num den := by
  have hden' : (0 : ℚ) < den := by exact_mod_cast hden
  unfold decimalOrder
  split
  · next hle =>
    obtain ⟨c, hcount, hlow, hhigh⟩ := Text.exists_digitCount (Nat.div_pos hle hden)
    rw [Nat.le_div_iff_mul_le hden] at hlow
    rw [Nat.div_lt_iff_lt_mul hden] at hhigh
    rw [hcount, show ((c + 1 : Nat) : Int) - 1 = c by omega, zpow_natCast, zpow_natCast,
      le_div_iff₀ hden', div_lt_iff₀ hden']
    exact ⟨by exact_mod_cast hlow, by exact_mod_cast hhigh⟩
  · next hlt =>
    have hnum' : (0 : ℚ) < num := by exact_mod_cast hnum
    obtain ⟨c, hcount, hlow, hhigh⟩ :=
      Text.exists_digitCount (show 0 < (den - 1) / num from Nat.div_pos (by omega) hnum)
    rw [Nat.le_div_iff_mul_le hnum] at hlow
    rw [Nat.div_lt_iff_lt_mul hnum] at hhigh
    have hlow' : 10 ^ c * num < den := by omega
    have hhigh' : den ≤ 10 ^ (c + 1) * num := by omega
    rw [hcount, show (1 : Int) - ((c + 1 : Nat) : Int) - 1 = -((c + 1 : Nat) : Int) by omega,
      show (1 : Int) - ((c + 1 : Nat) : Int) = -(c : Int) by omega, zpow_neg, zpow_neg,
      zpow_natCast, zpow_natCast, ← one_div, ← one_div, div_le_div_iff₀ (by positivity) hden',
      div_lt_div_iff₀ hden' (by positivity), one_mul, mul_comm (num : ℚ),
      mul_comm (num : ℚ)]
    exact ⟨by exact_mod_cast hhigh', by exact_mod_cast hlow'⟩

/-- A fraction counted in a power of ten. -/
theorem grid_ratio (num den : Nat) (e : Int) :
    (num : ℚ) / den =
      ((num * 10 ^ (-e).toNat : Nat) : ℚ) / ((den * 10 ^ e.toNat : Nat) : ℚ) * 10 ^ e := by
  rw [ten_zpow_eq_div]
  push_cast
  field_simp

/-! ## Figures -/

namespace Figures

/-- The number that figures stand for. -/
def value (x : Figures) : ℚ :=
  x.digits * 10 ^ x.exponent

theorem trimmed_spec {n : Nat} (hn : 0 < n) (e : Int) :
    (trimmed n e).digits % 10 ≠ 0 ∧ (trimmed n e).digits ≤ n ∧
      (trimmed n e).value = n * 10 ^ e := by
  fun_induction trimmed n e with
  | case1 => omega
  | case2 n e _ hmod ih =>
      obtain ⟨hlast, hle, hvalue⟩ := ih (by omega)
      refine ⟨hlast, by omega, ?_⟩
      have hten : (n : ℚ) = (n / 10 : Nat) * 10 := by
        exact_mod_cast (Nat.div_mul_cancel (Nat.dvd_of_mod_eq_zero hmod)).symm
      rw [hvalue, zpow_add_one₀ (by norm_num), hten]
      ring
  | case3 n e _ hmod => exact ⟨hmod, le_rfl, rfl⟩

end Figures

namespace Format

variable {f : Format}

theorem ratio_pow (n : Nat) (e : Int) :
    ((n * 10 ^ e.toNat : Nat) : ℚ) / ((10 ^ (-e).toNat : Nat) : ℚ) = n * 10 ^ e := by
  rw [ten_zpow_eq_div]
  push_cast
  ring

theorem readsBack_iff {magnitude n : Nat} {e : Int} :
    f.readsBack magnitude n e = true ↔
      f.nearest (n * 10 ^ e.toNat) (10 ^ (-e).toNat) = magnitude :=
  decide_eq_true_iff

/-- Whether figures read back depends on their value. -/
theorem readsBack_congr {magnitude n n' : Nat} {e e' : Int}
    (h : (n : ℚ) * 10 ^ e = n' * 10 ^ e') :
    f.readsBack magnitude n e = f.readsBack magnitude n' e' := by
  rw [← ratio_pow, ← ratio_pow] at h
  rw [Bool.eq_iff_iff, readsBack_iff, readsBack_iff,
    nearest_congr (Nat.pow_pos (by decide)) (Nat.pow_pos (by decide)) h]

/-- Taking zeros off the end of digits that read back leaves digits that do. -/
theorem readsBack_trimmed {magnitude n : Nat} {e : Int} (hpos : 0 < magnitude)
    (h : f.readsBack magnitude n e = true) :
    (Figures.trimmed n e).digits % 10 ≠ 0 ∧ (Figures.trimmed n e).digits ≤ n ∧
      f.readsBack magnitude (Figures.trimmed n e).digits (Figures.trimmed n e).exponent = true := by
  have hn : 0 < n := by
    refine Nat.pos_of_ne_zero ?_
    rintro rfl
    rw [readsBack_iff, Nat.zero_mul] at h
    exact hpos.ne h
  obtain ⟨hlast, hle, hvalue⟩ := Figures.trimmed_spec hn e
  exact ⟨hlast, hle, by rwa [readsBack_congr hvalue]⟩

theorem neighbour?_spec {tie : Tie} {magnitude num den : Nat} {e : Int} {x : Figures}
    (hpos : 0 < magnitude) (h : f.neighbour? tie magnitude num den e = some x) :
    x.digits % 10 ≠ 0 ∧ x.digits ≤ num * 10 ^ (-e).toNat / (den * 10 ^ e.toNat) + 1 ∧
      f.readsBack magnitude x.digits x.exponent = true := by
  set low := num * 10 ^ (-e).toNat / (den * 10 ^ e.toNat) with hlow
  have htaken : ∀ n ≤ low + 1, f.readsBack magnitude n e = true → .trimmed n e = x →
      x.digits % 10 ≠ 0 ∧ x.digits ≤ low + 1 ∧
        f.readsBack magnitude x.digits x.exponent = true := by
    rintro n hn hback rfl
    obtain ⟨hlast, hle, hread⟩ := readsBack_trimmed hpos hback
    exact ⟨hlast, hle.trans hn, hread⟩
  unfold neighbour? at h
  dsimp only at h
  rw [← hlow] at h
  generalize hfar : (if roundDiv tie (num * 10 ^ (-e).toNat) (den * 10 ^ e.toNat) = low
    then low + 1 else low) = far at h
  split at h
  · next hback => exact htaken _ (Binary.roundDiv_le tie _ _) hback (Option.some.inj h)
  · split at h
    · next hback =>
      refine htaken far ?_ hback (Option.some.inj h)
      rw [← hfar]
      split <;> omega
    · cases h

/-- On a grid of seventeen digits the nearest number reads back. -/
theorem neighbour?_isSome (tie : Tie) {magnitude num den : Nat} {e : Int} (hden : 0 < den)
    (hfinite : magnitude < f.infinity) (hvalue : (num : ℚ) / den = f.value magnitude)
    (hgrid : (10 : ℚ) ^ 16 * 10 ^ e ≤ num / den) :
    (f.neighbour? tie magnitude num den e).isSome := by
  set near := roundDiv tie (num * 10 ^ (-e).toNat) (den * 10 ^ e.toNat) with hnear
  suffices hback : f.readsBack magnitude near e = true by
    unfold neighbour?
    dsimp only
    rw [← hnear, if_pos hback]
    rfl
  have hpow := ten_zpow_pos e
  have hdist : |(near : ℚ) * 10 ^ e - num / den| ≤ 10 ^ e / 2 := by
    have hround := abs_sub_roundDiv_le tie (num * 10 ^ (-e).toNat)
      (Nat.mul_pos hden (Nat.pow_pos (by decide) : 0 < 10 ^ e.toNat))
    rw [grid_ratio num den e, ← sub_mul, abs_mul, abs_of_pos hpow, abs_sub_comm]
    calc _ ≤ 1 / 2 * (10 : ℚ) ^ e := mul_le_mul_of_nonneg_right hround hpow.le
      _ = 10 ^ e / 2 := by ring
  obtain ⟨place, units, rfl, hunits, hplace⟩ := f.exists_units magnitude
  rw [readsBack_iff]
  rw [value_units hunits hplace] at hvalue
  refine nearest_of_close (Nat.pow_pos (by decide)) hunits hplace hfinite ?_
  rw [ratio_pow]
  rw [hvalue] at hdist hgrid
  refine hdist.trans_lt ?_
  have hunit := two_zpow_pos (f.minExponent + place)
  have hbits : f.fractionBits ≤ 52 := by cases f <;> decide
  split
  · next heq =>
    have hfew : (units : ℚ) ≤ 2 ^ 52 := by
      rw [heq]
      exact_mod_cast Nat.pow_le_pow_right (by decide) hbits
    have hwide := hgrid.trans (mul_le_mul_of_nonneg_right hfew hunit.le)
    norm_num at hwide ⊢
    linarith
  · have hfew : (units : ℚ) ≤ 2 ^ 53 := by
      exact_mod_cast hunits.le.trans (Nat.pow_le_pow_right (by decide) (Nat.succ_le_succ hbits))
    have hwide := hgrid.trans (mul_le_mul_of_nonneg_right hfew hunit.le)
    norm_num at hwide ⊢
    linarith

/-- The shortest figures of a positive finite float end in no zero, are at most `enoughDigits`, and
read back. -/
theorem shortest_spec (tie : Tie) {magnitude : Nat} (hpos : 0 < magnitude)
    (hfinite : magnitude < f.infinity) :
    (f.shortest tie magnitude).digits % 10 ≠ 0 ∧
      (f.shortest tie magnitude).digits < 10 ^ enoughDigits ∧
      f.readsBack magnitude (f.shortest tie magnitude).digits
        (f.shortest tie magnitude).exponent = true := by
  unfold shortest
  dsimp only
  set num := (f.scaled magnitude).1 * 2 ^ (f.scaled magnitude).2.toNat with hnum
  set den := 2 ^ (-(f.scaled magnitude).2).toNat with hden
  set order := decimalOrder num den with horder
  have hdenpos : 0 < den := Nat.two_pow_pos _
  have hvalue : (num : ℚ) / den = f.value magnitude := f.ratio_scaled magnitude
  have hnumpos : 0 < num := by
    refine Nat.pos_of_ne_zero fun hzero => ?_
    have hlt := f.strictMono_value hpos
    rw [f.value_zero, ← hvalue, hzero, Nat.cast_zero, zero_div] at hlt
    exact lt_irrefl _ hlt
  obtain ⟨hlow, hhigh⟩ := decimalOrder_spec hnumpos hdenpos
  rw [← horder] at hlow hhigh
  have hsome : ((List.range enoughDigits).findSome? fun i =>
      f.neighbour? tie magnitude num den (order - (i + 1 : Nat))).isSome := by
    rw [List.findSome?_isSome_iff]
    refine ⟨16, List.mem_range.mpr (by decide), neighbour?_isSome tie hdenpos hfinite hvalue ?_⟩
    rw [← zpow_natCast, ← zpow_add₀ (by norm_num)]
    refine le_of_eq_of_le ?_ hlow
    congr 1
    push_cast
    ring
  obtain ⟨x, hx⟩ := Option.isSome_iff_exists.mp hsome
  rw [hx, Option.getD_some]
  obtain ⟨i, hi, hfound⟩ := List.exists_of_findSome?_eq_some hx
  obtain ⟨hlast, hle, hread⟩ := neighbour?_spec hpos hfound
  refine ⟨hlast, ?_, hread⟩
  set e : Int := order - (i + 1 : Nat) with he
  have hbelow : num * 10 ^ (-e).toNat / (den * 10 ^ e.toNat) < 10 ^ (i + 1) := by
    have hgrid : 0 < den * 10 ^ e.toNat := Nat.mul_pos hdenpos (Nat.pow_pos (by decide))
    have hgrid' : (0 : ℚ) < (den * 10 ^ e.toNat : Nat) := by exact_mod_cast hgrid
    have horder' : (10 : ℚ) ^ order = 10 ^ (i + 1) * 10 ^ e := by
      rw [← zpow_natCast, ← zpow_add₀ (by norm_num)]
      congr 1
      omega
    rw [grid_ratio num den e, horder'] at hhigh
    have hlt := lt_of_mul_lt_mul_right hhigh (ten_zpow_pos e).le
    rw [div_lt_iff₀ hgrid'] at hlt
    rw [Nat.div_lt_iff_lt_mul hgrid]
    exact_mod_cast hlt
  have hmore : 10 ^ (i + 1) ≤ 10 ^ enoughDigits :=
    Nat.pow_le_pow_right (by decide) (List.mem_range.mp hi)
  have hzero : 10 ^ enoughDigits % 10 = 0 := by decide
  have hne : (x.digits : Nat) ≠ 10 ^ enoughDigits := fun heq => hlast (by rw [heq, hzero])
  omega

end Format

end RowCode
