import Mathlib.Tactic.FieldSimp
import RowCode.Proofs.Binary.Exact

/-!
# Rounding to a float

Rounding depends on the value of a fraction and not on how it is written
(`nearest_congr`), it keeps the order (`nearest_mono`), and every number less
than half a unit away from a float is rounded to it (`nearest_of_close`). At a
power of two the float below is only half a unit away, so there a number has to
be closer.

All three follow from `exists_rounded`, which tells a rounded number in units of
its place.
-/

namespace RowCode

/-! ## Quotients -/

theorem roundDiv_mul_right (tie : Tie) (num den : Nat) {k : Nat} (hk : 0 < k) :
    roundDiv tie (num * k) (den * k) = roundDiv tie num den := by
  have hiff : ∀ a b : Nat, a * k < b * k ↔ a < b := fun a b => Nat.mul_lt_mul_right hk
  unfold roundDiv
  dsimp only
  rw [Nat.mul_div_mul_right _ _ hk, Nat.mul_mod_mul_right, ← Nat.mul_assoc]
  simp only [hiff]

theorem roundDiv_congr (tie : Tie) {num den num' den' : Nat} (hden : 0 < den) (hden' : 0 < den')
    (h : num * den' = num' * den) : roundDiv tie num den = roundDiv tie num' den' := by
  rw [← roundDiv_mul_right tie num den hden', h, Nat.mul_comm den,
    roundDiv_mul_right tie num' den' hden]

/-- A quotient is at most a half away from what it is rounded to. -/
theorem abs_sub_roundDiv_le (tie : Tie) (num : Nat) {den : Nat} (hden : 0 < den) :
    |(num : ℚ) / den - roundDiv tie num den| ≤ 1 / 2 := by
  have hpos : (0 : ℚ) < den := by exact_mod_cast hden
  set x : ℚ := (num % den : Nat) / den with hx
  have hnonneg : 0 ≤ x := by positivity
  have hone : x < 1 := by
    rw [hx, div_lt_one hpos]
    exact_mod_cast Nat.mod_lt num hden
  have hbelow : 2 * (num % den) ≤ den → x ≤ 1 / 2 := by
    intro h
    rw [hx, div_le_div_iff₀ hpos two_pos, one_mul, mul_comm]
    exact_mod_cast h
  have habove : den ≤ 2 * (num % den) → 1 / 2 ≤ x := by
    intro h
    rw [hx, div_le_div_iff₀ two_pos hpos, one_mul, mul_comm]
    exact_mod_cast h
  have hdown : x ≤ 1 / 2 → |((num / den : Nat) : ℚ) + x - (num / den : Nat)| ≤ 1 / 2 := by
    intro h
    rw [abs_le]
    constructor <;> linarith
  have hup : 1 / 2 ≤ x → |((num / den : Nat) : ℚ) + x - (num / den + 1 : Nat)| ≤ 1 / 2 := by
    intro h
    rw [abs_le]
    push_cast
    constructor <;> linarith
  rw [div_eq_add_mod_div num hden, ← hx]
  unfold roundDiv
  dsimp only
  split
  · next hless => exact hdown (hbelow hless.le)
  · next hnot =>
    split
    · next hmore => exact hup (habove hmore.le)
    · next hnot' =>
      cases tie with
      | toEven =>
          rcases Nat.mod_two_eq_zero_or_one (num / den) with heven | hodd
          · rw [heven]
            exact hdown (hbelow (by omega))
          · rw [hodd]
            exact hup (habove (by omega))
      | away => exact hup (habove (by omega))

/-! ## Places -/

theorem floorLog2_congr {num den num' den' : Nat} (hnum : 0 < num) (hden : 0 < den)
    (hden' : 0 < den') (h : (num : ℚ) / den = num' / den') :
    floorLog2 num den = floorLog2 num' den' := by
  obtain ⟨hlow, hhigh⟩ := floorLog2_spec hnum hden
  rw [h] at hlow hhigh
  exact (floorLog2_eq hden' hlow hhigh).symm

namespace Format

variable {f : Format}

/-- `value_units` with one unit more: as many units as do not fit one place are half as many in
the next. -/
theorem value_units_le {place units : Nat} (hunits : units ≤ 2 ^ (f.fractionBits + 1))
    (hplace : 2 ^ f.fractionBits ≤ units ∨ place = 0) :
    f.value (place * 2 ^ f.fractionBits + units) = units * 2 ^ (f.minExponent + place) := by
  rcases Nat.lt_or_eq_of_le hunits with hlt | rfl
  · exact value_units hlt hplace
  · have hnext : place * 2 ^ f.fractionBits + 2 ^ (f.fractionBits + 1) =
        (place + 1) * 2 ^ f.fractionBits + 2 ^ f.fractionBits := by ring
    rw [hnext, value_units (Nat.pow_lt_pow_succ (by decide)) (Or.inl le_rfl), Nat.cast_succ,
      ← add_assoc, two_zpow_succ]
    push_cast
    ring

theorem nearest_le_infinity (f : Format) (num den : Nat) :
    f.nearest num den ≤ f.infinity := by
  unfold nearest
  dsimp only
  split
  · exact Nat.zero_le _
  · exact Nat.min_le_left _ _

/-- What a positive number is rounded to: a number of units in the place where it has as many units
as a float can, at most half a unit away. -/
structure Rounded (f : Format) (v : ℚ) (place units : Nat) : Prop where
  near : |v - units * 2 ^ (f.minExponent + place)| ≤ 2 ^ (f.minExponent + place) / 2
  many : place = 0 ∨ 2 ^ f.fractionBits * 2 ^ (f.minExponent + place) ≤ v
  fits : v < 2 ^ (f.fractionBits + 1) * 2 ^ (f.minExponent + place)

theorem exists_rounded {num den : Nat} (hnum : 0 < num) (hden : 0 < den) :
    ∃ place units, Rounded f (num / den) place units ∧
      f.nearest num den = min f.infinity (place * 2 ^ f.fractionBits + units) := by
  have hden' : (0 : ℚ) < den := by exact_mod_cast hden
  obtain ⟨hlow, hhigh⟩ := floorLog2_spec hnum hden
  unfold nearest
  dsimp only
  rw [if_neg hnum.ne']
  set q : Int := max f.minExponent (floorLog2 num den - f.fractionBits) with hq
  have hplace : f.minExponent + (q - f.minExponent).toNat = q := by omega
  refine ⟨(q - f.minExponent).toNat, _, ⟨?_, ?_, ?_⟩, rfl⟩
  all_goals rw [hplace]
  · have hunit := two_zpow_pos q
    have hratio : (num : ℚ) / den = ((num * 2 ^ (-q).toNat : Nat) : ℚ) /
        ((den * 2 ^ q.toNat : Nat) : ℚ) * 2 ^ q := by
      rw [two_zpow_eq_div]
      push_cast
      field_simp
    have hround := abs_sub_roundDiv_le .toEven (num * 2 ^ (-q).toNat)
      (Nat.mul_pos hden (Nat.two_pow_pos q.toNat))
    rw [hratio, ← sub_mul, abs_mul, abs_of_pos hunit]
    calc _ ≤ 1 / 2 * (2 : ℚ) ^ q := mul_le_mul_of_nonneg_right hround hunit.le
      _ = 2 ^ q / 2 := by ring
  · rcases le_total f.minExponent (floorLog2 num den - f.fractionBits) with h | h
    · right
      rw [← two_zpow_add, show q + (f.fractionBits : Int) = floorLog2 num den by omega]
      exact hlow
    · left
      omega
  · rw [← two_zpow_add]
    exact hhigh.trans_le (zpow_le_zpow_right₀ one_le_two (by push_cast; omega))

namespace Rounded

variable {v : ℚ} {place units : Nat}

theorem units_le (h : Rounded f v place units) : units ≤ 2 ^ (f.fractionBits + 1) := by
  have hunit := two_zpow_pos (f.minExponent + place)
  have hnear := (abs_le.mp h.near).1
  have hlt : (units : ℚ) * 2 ^ (f.minExponent + place) <
      ((2 ^ (f.fractionBits + 1) : Nat) + 1 : ℚ) * 2 ^ (f.minExponent + place) := by
    have := h.fits
    push_cast
    linarith
  have hlt' := lt_of_mul_lt_mul_right hlt hunit.le
  have : units < 2 ^ (f.fractionBits + 1) + 1 := by exact_mod_cast hlt'
  omega

theorem le_units (h : Rounded f v place units) : 2 ^ f.fractionBits ≤ units ∨ place = 0 := by
  have hunit := two_zpow_pos (f.minExponent + place)
  refine h.many.symm.imp_left fun hmany => ?_
  have hnear := (abs_le.mp h.near).2
  have hlt : ((2 ^ f.fractionBits : Nat) : ℚ) * 2 ^ (f.minExponent + place) <
      ((units + 1 : Nat) : ℚ) * 2 ^ (f.minExponent + place) := by
    push_cast
    linarith
  have hlt' := lt_of_mul_lt_mul_right hlt hunit.le
  have : 2 ^ f.fractionBits < units + 1 := by exact_mod_cast hlt'
  omega

theorem value_eq (h : Rounded f v place units) :
    f.value (place * 2 ^ f.fractionBits + units) = units * 2 ^ (f.minExponent + place) :=
  value_units_le h.units_le h.le_units

end Rounded

/-! ## Half way -/

/-- Half way from a magnitude to the next one. -/
def tie (f : Format) (magnitude : Nat) : ℚ :=
  (f.value magnitude + f.value (magnitude + 1)) / 2

theorem tie_mono {m m' : Nat} (h : m ≤ m') : f.tie m ≤ f.tie m' := by
  have hlow := f.strictMono_value.monotone h
  have hhigh := f.strictMono_value.monotone (Nat.succ_le_succ h)
  unfold tie
  linarith

theorem le_tie (f : Format) (m : Nat) : f.value m ≤ f.tie m := by
  have := f.value_lt_succ m
  unfold tie
  linarith

theorem tie_le (f : Format) (m : Nat) : f.tie m ≤ f.value (m + 1) := by
  have := f.value_lt_succ m
  unfold tie
  linarith

/-- Half way down within a place is half a unit less. -/
theorem tie_pred {m place units : Nat} (hm : m + 1 = place * 2 ^ f.fractionBits + units)
    (hunits : units ≤ 2 ^ (f.fractionBits + 1)) (hlow : place = 0 ∨ 2 ^ f.fractionBits < units) :
    f.tie m = units * 2 ^ (f.minExponent + place) - 2 ^ (f.minExponent + place) / 2 := by
  have hpos : 0 < units := by
    rcases hlow with rfl | hlow
    · rw [Nat.zero_mul] at hm
      omega
    · exact Nat.zero_lt_of_lt hlow
  have hbelow : f.value m = ((units - 1 : Nat) : ℚ) * 2 ^ (f.minExponent + place) := by
    rw [show m = place * 2 ^ f.fractionBits + (units - 1) by omega]
    exact value_units_le ((Nat.sub_le _ _).trans hunits) (by omega)
  rw [tie, hm, hbelow, value_units_le hunits (hlow.symm.imp_left Nat.le_of_lt), Nat.cast_sub hpos,
    Nat.cast_one]
  ring

namespace Rounded

variable {v : ℚ} {place units : Nat}

/-- A number is not rounded up from below half way. -/
theorem tie_le (h : Rounded f v place units) {m : Nat}
    (hm : m + 1 = place * 2 ^ f.fractionBits + units) : f.tie m ≤ v := by
  have hnear := (abs_le.mp h.near).1
  by_cases hlow : place = 0 ∨ 2 ^ f.fractionBits < units
  · rw [tie_pred hm h.units_le hlow]
    linarith
  · -- the first number of a place, which the number is not below
    rw [not_or, not_lt] at hlow
    obtain rfl := hlow.2.antisymm (h.le_units.resolve_right hlow.1)
    have hmany := h.many.resolve_left hlow.1
    refine (f.tie_le m).trans ?_
    rw [hm, h.value_eq]
    exact_mod_cast hmany

/-- Nor is it rounded down from above. -/
theorem le_tie (h : Rounded f v place units) : v ≤ f.tie (place * 2 ^ f.fractionBits + units) := by
  have hvalue := h.value_eq
  have hnear := (abs_le.mp h.near).2
  rcases h.units_le.lt_or_eq with hlt | heq
  · have hplace : 2 ^ f.fractionBits ≤ units + 1 ∨ place = 0 :=
      h.le_units.imp_left fun hle => hle.trans (Nat.le_succ _)
    have habove := value_units_le hlt hplace
    rw [tie, hvalue, Nat.add_assoc, habove]
    push_cast
    linarith
  · refine le_trans ?_ (f.le_tie _)
    rw [hvalue, heq]
    exact_mod_cast h.fits.le

end Rounded

theorem nearest_le_of_lt_tie {num den m : Nat} (hden : 0 < den) (h : (num : ℚ) / den < f.tie m) :
    f.nearest num den ≤ m := by
  rcases Nat.eq_zero_or_pos num with rfl | hnum
  · simp [nearest]
  · obtain ⟨place, units, hround, hnearest⟩ := f.exists_rounded hnum hden
    rw [hnearest]
    refine (min_le_right _ _).trans (le_of_not_gt fun hlt => ?_)
    obtain ⟨m', hm'⟩ := Nat.exists_eq_succ_of_ne_zero (Nat.ne_of_gt (Nat.zero_lt_of_lt hlt))
    have hle := hround.tie_le hm'.symm
    have hmono : f.tie m ≤ f.tie m' := tie_mono (by omega)
    linarith

theorem lt_nearest_of_tie_lt {num den m : Nat} (hden : 0 < den) (hm : m < f.infinity)
    (h : f.tie m < num / den) : m < f.nearest num den := by
  have hpos : 0 < (num : ℚ) / den := ((f.value_nonneg m).trans (f.le_tie m)).trans_lt h
  have hnum : 0 < num := by
    refine Nat.pos_of_ne_zero ?_
    rintro rfl
    simp at hpos
  obtain ⟨place, units, hround, hnearest⟩ := f.exists_rounded hnum hden
  rw [hnearest]
  refine lt_min hm (lt_of_not_ge fun hge => ?_)
  have hle := hround.le_tie
  have hmono := f.tie_mono hge
  linarith

/-! ## The laws of rounding -/

/-- Rounding looks at the value alone. -/
theorem nearest_congr {num den num' den' : Nat} (hden : 0 < den) (hden' : 0 < den')
    (h : (num : ℚ) / den = num' / den') : f.nearest num den = f.nearest num' den' := by
  have hcross : num * den' = num' * den := by
    rw [div_eq_div_iff (by exact_mod_cast hden.ne') (by exact_mod_cast hden'.ne')] at h
    exact_mod_cast h
  have hzero : num = 0 ↔ num' = 0 := by
    constructor
    · rintro rfl
      rw [Nat.zero_mul] at hcross
      exact (Nat.mul_eq_zero.mp hcross.symm).resolve_right hden.ne'
    · rintro rfl
      rw [Nat.zero_mul] at hcross
      exact (Nat.mul_eq_zero.mp hcross).resolve_right hden'.ne'
  unfold nearest
  by_cases hnum : num = 0
  · rw [if_pos hnum, if_pos (hzero.mp hnum)]
  · rw [if_neg hnum, if_neg (mt hzero.mpr hnum)]
    rw [floorLog2_congr (Nat.pos_of_ne_zero hnum) hden hden' h]
    dsimp only
    set q : Int := max f.minExponent (floorLog2 num' den' - f.fractionBits)
    rw [roundDiv_congr .toEven (Nat.mul_pos hden (Nat.two_pow_pos q.toNat))
      (Nat.mul_pos hden' (Nat.two_pow_pos q.toNat))]
    calc num * 2 ^ (-q).toNat * (den' * 2 ^ q.toNat)
        = num * den' * (2 ^ (-q).toNat * 2 ^ q.toNat) := by ring
      _ = num' * den * (2 ^ (-q).toNat * 2 ^ q.toNat) := by rw [hcross]
      _ = num' * 2 ^ (-q).toNat * (den * 2 ^ q.toNat) := by ring

/-- Rounding keeps the order: of two numbers that are rounded the wrong way round, both would be
half way. -/
theorem nearest_mono {num den num' den' : Nat} (hden : 0 < den) (hden' : 0 < den')
    (h : (num : ℚ) / den ≤ num' / den') : f.nearest num den ≤ f.nearest num' den' := by
  by_contra hnot
  have hlt := not_le.mp hnot
  have hfinite := hlt.trans_le (f.nearest_le_infinity num den)
  have habove : f.tie (f.nearest num' den') ≤ num / den :=
    le_of_not_gt fun hgt => hnot (nearest_le_of_lt_tie hden hgt)
  have hbelow : (num' : ℚ) / den' ≤ f.tie (f.nearest num' den') :=
    le_of_not_gt fun hgt => lt_irrefl _ (lt_nearest_of_tie_lt hden' hfinite hgt)
  exact hnot (nearest_congr hden hden' (h.antisymm (hbelow.trans habove))).le

/-- Half way down from a number of units is half a unit less, or at a power of two a quarter. -/
theorem tie_pred_le {m place units : Nat} (hm : m + 1 = place * 2 ^ f.fractionBits + units)
    (hunits : units < 2 ^ (f.fractionBits + 1)) (hplace : 2 ^ f.fractionBits ≤ units ∨ place = 0) :
    f.tie m ≤ units * 2 ^ (f.minExponent + place) -
      2 ^ (f.minExponent + place) / if units = 2 ^ f.fractionBits then 4 else 2 := by
  have hunit := two_zpow_pos (f.minExponent + place)
  by_cases hlow : place = 0 ∨ 2 ^ f.fractionBits < units
  · rw [tie_pred hm hunits.le hlow]
    split <;> linarith
  · rw [not_or, not_lt] at hlow
    obtain rfl := hlow.2.antisymm (hplace.resolve_right hlow.1)
    obtain ⟨lower, rfl⟩ := Nat.exists_eq_succ_of_ne_zero hlow.1
    have hsplit : m = lower * 2 ^ f.fractionBits + (2 ^ (f.fractionBits + 1) - 1) := by
      rw [Nat.succ_mul] at hm
      omega
    have hlast : 2 ^ f.fractionBits ≤ 2 ^ (f.fractionBits + 1) - 1 := by
      have := Nat.two_pow_pos f.fractionBits
      omega
    have hbelow : f.value m =
        ((2 ^ (f.fractionBits + 1) - 1 : Nat) : ℚ) * 2 ^ (f.minExponent + lower) := by
      rw [hsplit]
      exact value_units (Nat.sub_lt (Nat.two_pow_pos _) Nat.one_pos) (Or.inl hlast)
    have hdouble : (2 : ℚ) ^ (f.minExponent + (lower.succ : Int)) =
        2 * 2 ^ (f.minExponent + lower) := by
      rw [Nat.cast_succ, ← add_assoc, two_zpow_succ]
    rw [if_pos rfl, tie, hm, hbelow, value_units hunits hplace, hdouble,
      Nat.cast_sub Nat.one_le_two_pow]
    push_cast
    refine le_of_eq ?_
    ring

/-- A number closer than half a unit to a finite float is rounded to it. Below a power of two,
where the units are half as large, it has to be closer than half of those. -/
theorem nearest_of_close {num den place units : Nat} (hden : 0 < den)
    (hunits : units < 2 ^ (f.fractionBits + 1)) (hplace : 2 ^ f.fractionBits ≤ units ∨ place = 0)
    (hfinite : place * 2 ^ f.fractionBits + units < f.infinity)
    (hclose : |(num : ℚ) / den - units * 2 ^ (f.minExponent + place)| <
      2 ^ (f.minExponent + place) / if units = 2 ^ f.fractionBits then 4 else 2) :
    f.nearest num den = place * 2 ^ f.fractionBits + units := by
  obtain ⟨hlow, hhigh⟩ := abs_lt.mp hclose
  refine le_antisymm (nearest_le_of_lt_tie hden ?_) ?_
  · have hunit := two_zpow_pos (f.minExponent + place)
    have hhalf : (2 : ℚ) ^ (f.minExponent + place) / (if units = 2 ^ f.fractionBits then 4 else 2) ≤
        2 ^ (f.minExponent + place) / 2 := by
      split <;> linarith
    have habove := value_units_le hunits (hplace.imp_left fun hle => hle.trans (Nat.le_succ _))
    rw [tie, Nat.add_assoc, habove, value_units hunits hplace]
    push_cast
    linarith
  · cases hm : place * 2 ^ f.fractionBits + units with
    | zero => exact Nat.zero_le _
    | succ m =>
        have htie := tie_pred_le hm.symm hunits hplace
        exact lt_nearest_of_tie_lt hden (by omega) (htie.trans_lt (by linarith))

end Format

end RowCode
