import Mathlib.Tactic.Linarith
import Mathlib.Tactic.NormNum
import Mathlib.Tactic.Positivity
import Mathlib.Tactic.Ring
import RowCode.Rounding

/-!
# The nearest integer

What it is for an integer to be the nearest one to a number, when a tie goes
away from zero. There is exactly one such integer (`IsNearest.unique`), and a
quotient of natural numbers is rounded to it (`isNearest_roundDiv`).
-/

namespace RowCode

/-- The integer is at most a half away from the number, and farther from zero if
it is exactly a half. -/
structure IsNearest (v : ℚ) (n : Int) : Prop where
  near : |v - n| ≤ 1 / 2
  tie : |v - n| = 1 / 2 → |v| < |(n : ℚ)|

theorem isNearest_intCast (n : Int) : IsNearest n n where
  near := by norm_num
  tie h := by norm_num at h

namespace IsNearest

variable {v : ℚ} {m n : Int}

theorem neg (h : IsNearest v n) : IsNearest (-v) (-n) := by
  have hdist : |-v - ((-n : Int) : ℚ)| = |v - n| := by
    rw [← abs_neg]
    congr 1
    push_cast
    ring
  constructor
  · rw [hdist]
    exact h.near
  · rw [hdist]
    push_cast
    rw [abs_neg, abs_neg]
    exact h.tie

/-- Of two neighbours at the same distance, only one is farther from zero. -/
theorem not_lt (hm : IsNearest v m) (hn : IsNearest v n) : ¬m < n := by
  intro hlt
  have hle : (m : ℚ) + 1 ≤ n := by exact_mod_cast hlt
  have hm' := abs_le.mp hm.near
  have hn' := abs_le.mp hn.near
  have hmid : v = m + 1 / 2 := by linarith
  have hsucc : (n : ℚ) = m + 1 := by linarith
  have hfar : |v| < |(m : ℚ)| := hm.tie (by rw [hmid]; norm_num)
  have hfar' : |v| < |(n : ℚ)| := hn.tie (by rw [hmid, hsucc]; norm_num)
  rcases lt_or_ge m 0 with hneg | hpos
  · have hn0 : (n : ℚ) ≤ 0 := by
      have : (m : ℚ) + 1 ≤ 0 := by exact_mod_cast hneg
      linarith
    rw [abs_of_nonpos hn0, abs_of_nonpos (by linarith)] at hfar'
    linarith
  · have hm0 : (0 : ℚ) ≤ m := by exact_mod_cast hpos
    rw [abs_of_nonneg hm0, abs_of_nonneg (by linarith)] at hfar
    linarith

theorem unique (hm : IsNearest v m) (hn : IsNearest v n) : m = n :=
  le_antisymm (le_of_not_gt (hn.not_lt hm)) (le_of_not_gt (hm.not_lt hn))

end IsNearest

/-- A quotient is the quotient without remainder and a proper fraction. -/
theorem div_eq_add_mod_div (num : Nat) {den : Nat} (hden : 0 < den) :
    (num : ℚ) / den = (num / den : Nat) + (num % den : Nat) / den := by
  have hpos : (0 : ℚ) < den := by exact_mod_cast hden
  have hsplit : (num : ℚ) = (num / den : Nat) * den + (num % den : Nat) := by
    exact_mod_cast (Nat.div_add_mod' num den).symm
  conv_lhs => rw [hsplit]
  rw [add_div, mul_div_cancel_right₀ _ hpos.ne']

/-- Below the half, a fraction is dropped. -/
theorem isNearest_of_lt_half {n : Nat} {x : ℚ} (hpos : 0 ≤ x) (hx : x < 1 / 2) :
    IsNearest (n + x) (n : Int) := by
  constructor
  · rw [Int.cast_natCast, add_sub_cancel_left, abs_of_nonneg hpos]
    exact hx.le
  · intro htie
    rw [Int.cast_natCast, add_sub_cancel_left, abs_of_nonneg hpos] at htie
    linarith

/-- From the half on, a fraction becomes one. -/
theorem isNearest_of_half_le {n : Nat} {x : ℚ} (hx : 1 / 2 ≤ x) (hone : x < 1) :
    IsNearest (n + x) ((n + 1 : Nat) : Int) := by
  have hn : (0 : ℚ) ≤ n := by positivity
  constructor
  · rw [abs_le]
    push_cast
    constructor <;> linarith
  · intro _
    push_cast
    rw [abs_of_nonneg (by linarith), abs_of_nonneg (by linarith)]
    linarith

theorem isNearest_roundDiv (num : Nat) {den : Nat} (hden : 0 < den) :
    IsNearest (num / den) (roundDiv .away num den) := by
  have hpos : (0 : ℚ) < den := by exact_mod_cast hden
  have hfraction : (0 : ℚ) ≤ (num % den : Nat) / den := by positivity
  have hone : ((num % den : Nat) : ℚ) / den < 1 := by
    rw [div_lt_one hpos]
    exact_mod_cast Nat.mod_lt num hden
  have hhalf : ((num % den : Nat) : ℚ) / den < 1 / 2 ↔ 2 * (num % den) < den := by
    rw [div_lt_div_iff₀ hpos two_pos, one_mul, mul_comm]
    exact_mod_cast Iff.rfl
  rw [div_eq_add_mod_div num hden]
  unfold roundDiv
  dsimp only
  split
  · next hless => exact isNearest_of_lt_half hfraction (hhalf.mpr hless)
  · next hnot =>
    have hup := isNearest_of_half_le (n := num / den) (not_lt.mp (mt hhalf.mp hnot)) hone
    split <;> exact hup

end RowCode
