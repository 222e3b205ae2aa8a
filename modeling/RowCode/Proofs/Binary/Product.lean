import RowCode.Binary.Arith
import RowCode.Proofs.Binary.Nearest
import RowCode.Proofs.Binary.Sum

/-!
# Products and quotients

The product of finite floats is the product of their values, rounded
(`exists_mul`), and so for quotients (`div_eq_ofRatio`). What a fraction is
rounded to has the sign that goes with it and the magnitude that the fraction is
rounded to.
-/

namespace RowCode

namespace Binary

variable {f : Format}

section

variable (negative : Bool) (num den : Nat)

theorem nearest_lt_signBit : f.nearest num den < f.signBit :=
  (f.nearest_le_infinity num den).trans_lt (infinity_lt_signBit f)

theorem magnitude_ofRatio :
    (ofRatio negative num den : Binary f).magnitude = f.nearest num den :=
  magnitude_ofMagnitude _ (nearest_lt_signBit num den)

theorem negative_ofRatio : (ofRatio negative num den : Binary f).negative = negative :=
  negative_ofMagnitude _ (nearest_lt_signBit num den)

theorem isFinite_ofRatio :
    (ofRatio negative num den : Binary f).isFinite = true ↔ f.nearest num den < f.infinity := by
  rw [isFinite, decide_eq_true_iff, magnitude_ofRatio]

end

theorem ofRatio_congr (negative : Bool) {num den num' den' : Nat} (hden : 0 < den)
    (hden' : 0 < den') (h : (num : ℚ) / den = num' / den') :
    (ofRatio negative num den : Binary f) = ofRatio negative num' den' := by
  rw [ofRatio, ofRatio, Format.nearest_congr hden hden' h]

theorem isInfinite_of_isFinite {x : Binary f} (hx : x.isFinite = true) : x.isInfinite = false := by
  simpa [isInfinite] using (magnitude_lt_of_isFinite hx).ne

variable {x y : Binary f}

/-- The product as a fraction. -/
theorem exists_mul (hx : x.isFinite = true) (hy : y.isFinite = true) :
    ∃ num den : Nat, 0 < den ∧ (num : ℚ) / den = f.value x.magnitude * f.value y.magnitude ∧
      x.mul y = ofRatio (x.negative != y.negative) num den := by
  set m := f.scaled x.magnitude with hm
  set n := f.scaled y.magnitude with hn
  refine ⟨m.1 * n.1 * 2 ^ (m.2 + n.2).toNat, 2 ^ (-(m.2 + n.2)).toNat, Nat.two_pow_pos _, ?_, ?_⟩
  · rw [Format.value, Format.value, ← hm, ← hn]
    push_cast
    rw [mul_div_assoc, ← two_zpow_eq_div, zpow_add₀ two_ne_zero]
    ring
  · unfold mul
    simp only [isNaN_of_isFinite hx, isNaN_of_isFinite hy, isInfinite_of_isFinite hx,
      isInfinite_of_isFinite hy, Bool.or_self, Bool.false_eq_true, if_false]
    rfl

theorem div_eq_ofRatio (hx : x.isFinite = true) (hy : y.isFinite = true)
    (hzero : y.isZero = false) {num den : Nat} (hden : 0 < den)
    (h : (num : ℚ) / den = f.value x.magnitude / f.value y.magnitude) :
    x.div y = ofRatio (x.negative != y.negative) num den := by
  have hpos : 0 < y.magnitude := by
    simpa [isZero, Nat.pos_iff_ne_zero] using hzero
  have hvalue : 0 < f.value y.magnitude := by
    rw [← f.value_zero]
    exact f.strictMono_value hpos
  have hdiv : x.div y =
      ofRatio (x.negative != y.negative) (x.ratio.1 * y.ratio.2) (x.ratio.2 * y.ratio.1) := by
    unfold div
    simp only [isNaN_of_isFinite hx, isNaN_of_isFinite hy, isInfinite_of_isFinite hx,
      isInfinite_of_isFinite hy, hzero, Bool.or_self, Bool.false_eq_true, if_false]
  have hnum : 0 < y.ratio.1 := by
    refine Nat.pos_of_ne_zero fun hnum => ?_
    rw [← ratio_eq, hnum, Nat.cast_zero, zero_div] at hvalue
    exact lt_irrefl _ hvalue
  rw [hdiv]
  refine ofRatio_congr _ (Nat.mul_pos x.ratio_pos hnum) hden ?_
  rw [h, ← ratio_eq, ← ratio_eq, div_div_div_eq]
  push_cast
  rfl

end Binary

end RowCode
