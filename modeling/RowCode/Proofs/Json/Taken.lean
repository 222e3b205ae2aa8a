import RowCode.Proofs.Binary.Product
import RowCode.Proofs.Json.Float

/-!
# What figures are taken for

The reader of JSON numbers computes with doubles: it rounds the digits, rounds a
power of ten, and rounds the product or the quotient of the two. Here the same is
said of numbers. `rounded` is the double nearest to a number, `Figures.taken` is
what some figures are taken for, and no float occurs in it.

`Stands` relates a double to the number that it is. Each operation of the reader
has one lemma, and `scaleByTen` follows them: downwards it always ends
(`scaleByTen_of_neg`), upwards it ends unless it comes to infinity
(`stands_of_scaleByTen`).
-/

namespace RowCode

open Json

/-! ## Rounding numbers -/

theorem natAbs_num_div_den {v : ℚ} (hv : 0 ≤ v) : (v.num.natAbs : ℚ) / v.den = v := by
  have hnum : (v.num.natAbs : ℚ) = v.num := by
    rw [Nat.cast_natAbs, abs_of_nonneg (Rat.num_nonneg.mpr hv)]
  rw [hnum, Rat.num_div_den]

namespace Format

/-- The magnitude nearest to a number that is not negative. -/
def round (f : Format) (v : ℚ) : Nat :=
  f.nearest v.num.natAbs v.den

variable {f : Format} {v w : ℚ}

theorem round_eq {num den : Nat} (hden : 0 < den) (h : (num : ℚ) / den = v) :
    f.round v = f.nearest num den := by
  have hv : 0 ≤ v := by
    rw [← h]
    positivity
  exact nearest_congr v.den_pos hden ((natAbs_num_div_den hv).trans h.symm)

theorem round_natCast (n : Nat) : f.round n = f.nearest n 1 :=
  round_eq Nat.one_pos (by simp)

theorem round_mono (hv : 0 ≤ v) (h : v ≤ w) : f.round v ≤ f.round w := by
  refine nearest_mono v.den_pos w.den_pos ?_
  rwa [natAbs_num_div_den hv, natAbs_num_div_den (hv.trans h)]

/-- What is a float already stays. -/
theorem round_value {magnitude : Nat} (h : magnitude < f.infinity) :
    f.round (f.value magnitude) = magnitude :=
  nearest_value (Rat.den_pos _) h (natAbs_num_div_den (f.value_nonneg magnitude))

end Format

namespace Json

/-- The double nearest to a number, as a number again. -/
def rounded (v : ℚ) : ℚ :=
  Format.double.value (Format.double.round v)

theorem rounded_mono {v w : ℚ} (hv : 0 ≤ v) (h : v ≤ w) : rounded v ≤ rounded w :=
  Format.double.strictMono_value.monotone (Format.round_mono hv h)

/-- A whole number with few bits before its last zeros is a double. -/
theorem rounded_natCast {n : Nat} (units shift : Nat) (hn : n = units * 2 ^ shift)
    (hunits : units < 2 ^ 53) (hlt : n < 2 ^ 200) : rounded n = n := by
  have hlt' : (((n : Int).natAbs : Nat) : ℚ) <
      2 ^ (2 - Format.double.minExponent - Format.double.fractionBits) := by
    have hpow : (2 : ℚ) ^ (200 : Int) ≤
        2 ^ (2 - Format.double.minExponent - Format.double.fractionBits) :=
      zpow_le_zpow_right₀ one_le_two (by decide)
    rw [Int.natAbs_natCast]
    refine lt_of_lt_of_le ?_ hpow
    rw [show (200 : Int) = ((200 : Nat) : Int) from rfl, zpow_natCast]
    exact_mod_cast hlt
  obtain ⟨-, hvalue⟩ := Binary.ofInt_exact (f := .double) (n := n) hn hunits hlt'
  have habs := Binary.abs_value (.ofInt n : Double)
  rw [hvalue, Int.cast_natCast, Nat.abs_cast, Binary.ofInt, Int.natAbs_natCast,
    Binary.magnitude_ofRatio, ← Format.round_natCast] at habs
  exact habs.symm

theorem rounded_zero : rounded 0 = 0 := by
  simpa using rounded_natCast 0 0 rfl (by decide) (by decide)

theorem rounded_one : rounded 1 = 1 := by
  simpa using rounded_natCast 1 0 rfl (by decide) (by decide)

theorem one_le_rounded {v : ℚ} (h : 1 ≤ v) : 1 ≤ rounded v := by
  rw [← rounded_one]
  exact rounded_mono zero_le_one h

theorem one_le_rounded_pow (k : Nat) : 1 ≤ rounded (10 ^ k) :=
  one_le_rounded (one_le_pow₀ (by norm_num))

/-- A number with a power of ten divided off, in steps as large as there are doubles for. -/
def dividedOff (v : ℚ) (k : Nat) : ℚ :=
  if k ≤ maxPower then rounded (v / rounded (10 ^ k))
  else dividedOff (rounded (v / rounded (10 ^ maxPower))) (k - maxPower)
termination_by k
decreasing_by
  have : maxPower = 308 := rfl
  omega

theorem dividedOff_zero (k : Nat) : dividedOff 0 k = 0 := by
  induction k using Nat.strongRecOn with
  | ind k ih =>
      rw [dividedOff]
      split
      · rw [zero_div, rounded_zero]
      · have hmax : maxPower = 308 := rfl
        rw [zero_div, rounded_zero]
        exact ih _ (by omega)

end Json

/-- The number that figures are taken for, which need not be the nearest to the number that they
stand for. -/
def Figures.taken (x : Figures) : ℚ :=
  if 0 ≤ x.exponent then rounded (rounded x.digits * rounded (10 ^ x.exponent.toNat))
  else dividedOff (rounded x.digits) (-x.exponent).toNat

/-- Where the digits and the power of ten are doubles, the figures are rounded once. -/
theorem Figures.taken_of_short {x : Figures} (hdigits : x.digits < 2 ^ 53)
    (hexponent : x.exponent.natAbs ≤ 22) : x.taken = rounded x.value := by
  have hpower : ∀ k ≤ 22, rounded (10 ^ k) = 10 ^ k := by
    intro k hk
    have hfactors : 10 ^ k = 5 ^ k * 2 ^ k := by rw [← Nat.mul_pow]
    have hunits : 5 ^ k < 2 ^ 53 := (Nat.pow_le_pow_right (by decide) hk).trans_lt (by decide)
    have hlt : 10 ^ k < 2 ^ 200 := (Nat.pow_le_pow_right (by decide) hk).trans_lt (by decide)
    simpa using rounded_natCast _ _ hfactors hunits hlt
  have hwhole : rounded x.digits = x.digits :=
    rounded_natCast _ 0 (Nat.mul_one _).symm hdigits (hdigits.trans (by decide))
  rw [taken, hwhole, value]
  split
  · next hnonneg =>
      obtain ⟨k, hk⟩ := Int.eq_ofNat_of_zero_le hnonneg
      rw [hk, Int.toNat_natCast, hpower k (by omega), zpow_natCast]
  · next hneg =>
      obtain ⟨k, hk⟩ := Int.exists_eq_neg_ofNat (not_le.mp hneg).le
      have hmax : maxPower = 308 := rfl
      rw [hk, Int.neg_neg, Int.toNat_natCast, dividedOff, if_pos (by omega), hpower k (by omega),
        zpow_neg, zpow_natCast, div_eq_mul_inv]

/-! ## Doubles that stand for numbers -/

namespace Json

/-- The double is finite and positive, or a zero without a sign, and is the number. -/
structure Stands (x : Double) (v : ℚ) : Prop where
  finite : x.isFinite = true
  positive : x.negative = false
  value : Format.double.value x.magnitude = v

theorem stands_ofRatio {num den : Nat} {v : ℚ} (hden : 0 < den) (h : (num : ℚ) / den = v)
    (hfinite : (.ofRatio false num den : Double).isFinite = true) :
    Stands (.ofRatio false num den) (rounded v) where
  finite := hfinite
  positive := Binary.negative_ofRatio _ _ _
  value := by rw [Binary.magnitude_ofRatio, rounded, Format.round_eq hden h]

theorem ofInt_natCast {f : Format} (n : Nat) : (.ofInt n : Binary f) = .ofRatio false n 1 := by
  rw [Binary.ofInt, decide_eq_false (by omega), Int.natAbs_natCast]

theorem nearest_natCast_mono (f : Format) {m n : Nat} (h : m ≤ n) :
    f.nearest m 1 ≤ f.nearest n 1 := by
  refine Format.nearest_mono Nat.one_pos Nat.one_pos ?_
  rw [Nat.cast_one, div_one, div_one]
  exact_mod_cast h

theorem stands_ofInt {n : Nat} (hn : n < 10 ^ Format.enoughDigits) :
    Stands (.ofInt n) (rounded n) := by
  have hmax : Format.double.nearest (10 ^ Format.enoughDigits) 1 < Format.double.infinity := by
    decide +kernel
  rw [ofInt_natCast]
  refine stands_ofRatio Nat.one_pos (by simp) ((Binary.isFinite_ofRatio _ _ _).mpr ?_)
  exact (nearest_natCast_mono _ hn.le).trans_lt hmax

theorem stands_powerOfTen {k : Nat} (hk : k ≤ maxPower) :
    Stands (powerOfTen k) (rounded (10 ^ k)) := by
  have hmax : Format.double.nearest (10 ^ maxPower) 1 < Format.double.infinity := by
    decide +kernel
  refine stands_ofRatio Nat.one_pos (by simp) ((Binary.isFinite_ofRatio _ _ _).mpr ?_)
  exact (nearest_natCast_mono _ (Nat.pow_le_pow_right (by decide) hk)).trans_lt hmax

namespace Stands

variable {x y : Double} {v w : ℚ}

theorem mul (hx : Stands x v) (hy : Stands y w) (hfinite : (x.mul y).isFinite = true) :
    Stands (x.mul y) (rounded (v * w)) := by
  obtain ⟨num, den, hden, hvalue, hmul⟩ := Binary.exists_mul hx.finite hy.finite
  rw [hx.value, hy.value] at hvalue
  rw [hx.positive, hy.positive] at hmul
  rw [hmul] at hfinite ⊢
  exact stands_ofRatio hden hvalue hfinite

/-- What is divided by something as large as one does not become larger. -/
theorem div (hx : Stands x v) (hy : Stands y w) (hw : 1 ≤ w) :
    Stands (x.div y) (rounded (v / w)) := by
  have hv : 0 ≤ v := by
    rw [← hx.value]
    exact Format.value_nonneg _ _
  have hquotient : 0 ≤ v / w := div_nonneg hv (zero_le_one.trans hw)
  have hzero : y.isZero = false := by
    rw [Binary.isZero, decide_eq_false_iff_not]
    intro hzero
    have hnone := hy.value
    rw [hzero, Format.value_zero] at hnone
    linarith
  have hratio := natAbs_num_div_den hquotient
  have hdiv := Binary.div_eq_ofRatio hx.finite hy.finite hzero (v / w).den_pos
    (hratio.trans (by rw [hx.value, hy.value]))
  rw [hx.positive, hy.positive] at hdiv
  rw [hdiv]
  refine stands_ofRatio (v / w).den_pos hratio ((Binary.isFinite_ofRatio _ _ _).mpr ?_)
  have hround := Format.round_value (Binary.magnitude_lt_of_isFinite hx.finite)
  rw [hx.value] at hround
  calc Format.double.nearest (v / w).num.natAbs (v / w).den
      ≤ Format.double.round v := Format.round_mono hquotient (div_le_self hv hw)
    _ = x.magnitude := hround
    _ < Format.double.infinity := Binary.magnitude_lt_of_isFinite hx.finite

theorem eq_zero (h : Stands x v) (hzero : x.isZero = true) : v = 0 := by
  have hmagnitude : x.magnitude = 0 := by simpa [Binary.isZero] using hzero
  rw [← h.value, hmagnitude, Format.value_zero]

end Stands

variable {x : Double} {v : ℚ} {e : Int}

/-- Powers of ten are divided off as long as it takes. -/
theorem scaleByTen_of_neg (hx : Stands x v) (he : e < 0) :
    ∃ y, scaleByTen x e = some y ∧ Stands y (dividedOff v (-e).toNat) := by
  have hmax : maxPower = 308 := rfl
  fun_induction scaleByTen x e generalizing v with
  | case1 => omega
  | case2 => omega
  | case3 x e hpower _ =>
      refine ⟨_, rfl, ?_⟩
      rw [dividedOff, if_pos (by omega), show (-e).toNat = e.natAbs by omega]
      exact hx.div (stands_powerOfTen hpower) (one_le_rounded_pow _)
  | case4 x e _ hzero =>
      refine ⟨x, rfl, ?_⟩
      obtain rfl := hx.eq_zero hzero
      rwa [dividedOff_zero]
  | case5 => omega
  | case6 x e hpower _ _ ih =>
      have hstep := hx.div (stands_powerOfTen (Nat.le_refl _)) (one_le_rounded_pow _)
      obtain ⟨y, hy, hstands⟩ := ih hstep (by omega)
      refine ⟨y, hy, ?_⟩
      have hrest : (-e).toNat - maxPower = (-(e + maxPower)).toNat := by omega
      rw [dividedOff, if_neg (by omega), hrest]
      exact hstands

/-- A product that is found is finite. -/
theorem stands_of_scaleByTen {y : Double} (hx : Stands x v) (he : 0 ≤ e)
    (h : scaleByTen x e = some y) : Stands y (rounded (v * rounded (10 ^ e.toNat))) := by
  rw [scaleByTen] at h
  simp only [if_pos he] at h
  split at h
  · next hpower =>
      split at h
      · cases h
      · next hbounded =>
          obtain rfl := Option.some.inj h
          have hten := stands_powerOfTen hpower
          obtain ⟨num, den, -, -, hmul⟩ := Binary.exists_mul hx.finite hten.finite
          have hfinite : (x.mul (powerOfTen e.natAbs)).isFinite = true := by
            rw [Binary.isInfinite, decide_eq_true_iff] at hbounded
            rw [Binary.isFinite, decide_eq_true_iff]
            refine Nat.lt_of_le_of_ne ?_ hbounded
            rw [hmul, Binary.magnitude_ofRatio]
            exact Format.nearest_le_infinity _ _ _
          rw [show e.toNat = e.natAbs by omega]
          exact hx.mul hten hfinite
  · split at h
    · next hzero =>
        obtain rfl := Option.some.inj h
        obtain rfl := hx.eq_zero hzero
        rwa [zero_mul, rounded_zero]
    · cases h

end Json

end RowCode
