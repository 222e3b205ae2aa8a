import RowCode.Proofs.Binary.Twice
import RowCode.Proofs.Json.Taken

/-!
# What floats come back as

The text of a float names it exactly: its figures round to it
(`readsBack_written`). The reader does not round them so, and what a finite float
comes back as is the one nearest to the number that its figures are taken for
(`reread_eq`). There is always a result (`isSome_reread`), also for the greatest
float, whose figures are the only ones that come close enough to infinity to need
a look (`shortest_greatest`).

So a float survives if the number that its figures are taken for still rounds to
it (`Binary.Survives`). It does if the digits and the power of ten are doubles
(`survives_of_isShort`). Otherwise it need not.
-/

namespace RowCode

open Json

/-! ## Figures that name their float -/

namespace Binary

variable {f : Format}

theorem readsBack_written {x : Binary f} (hx : x.isFinite = true) :
    f.readsBack x.magnitude x.written.digits x.written.exponent = true := by
  have hvalue := (x.figures .toEven).value_spelt f
  rw [Figures.value, Figures.value] at hvalue
  rw [written, Format.readsBack_congr hvalue, figures]
  by_cases hzero : x.isZero = true
  · have hmagnitude : x.magnitude = 0 := by simpa [isZero] using hzero
    rw [if_pos hzero, hmagnitude, Format.readsBack_iff, Nat.zero_mul]
    rfl
  · have hpos : 0 < x.magnitude := by
      simpa [isZero, Nat.pos_iff_ne_zero] using hzero
    rw [if_neg hzero]
    exact (Format.shortest_spec .toEven hpos (magnitude_lt_of_isFinite hx)).2.2

end Binary

/-! ## No overflow -/

namespace Json

/-- A product of a number and a power of ten is finite if a larger one is. -/
theorem isFinite_mul_mono {n n' k k' : Nat} (hn : n ≤ n') (hk : k ≤ k')
    (hfinite : (.ofInt n' : Double).isFinite = true) (hpower : (powerOfTen k').isFinite = true)
    (h : ((.ofInt n' : Double).mul (powerOfTen k')).isFinite = true) :
    ((.ofInt n : Double).mul (powerOfTen k)).isFinite = true := by
  rw [ofInt_natCast] at hfinite h ⊢
  unfold powerOfTen at hpower h ⊢
  have hnle := nearest_natCast_mono .double hn
  have hkle := nearest_natCast_mono .double (Nat.pow_le_pow_right (by decide : 0 < 10) hk)
  have hfinite₁ := (Binary.isFinite_ofRatio _ _ _).mp hfinite
  have hfinite₂ := (Binary.isFinite_ofRatio _ _ _).mp hpower
  obtain ⟨num, den, hden, hvalue, hmul⟩ := Binary.exists_mul
    ((Binary.isFinite_ofRatio false n 1).mpr (hnle.trans_lt hfinite₁))
    ((Binary.isFinite_ofRatio false (10 ^ k) 1).mpr (hkle.trans_lt hfinite₂))
  obtain ⟨num', den', hden', hvalue', hmul'⟩ := Binary.exists_mul hfinite hpower
  rw [hmul', Binary.isFinite_ofRatio] at h
  rw [hmul, Binary.isFinite_ofRatio]
  refine (Format.nearest_mono hden hden' ?_).trans_lt h
  simp only [Binary.magnitude_ofRatio] at hvalue hvalue'
  rw [hvalue, hvalue']
  exact mul_le_mul (Format.double.strictMono_value.monotone hnle)
    (Format.double.strictMono_value.monotone hkle) (Format.value_nonneg _ _)
    (Format.value_nonneg _ _)

/-- Every integer above this is rounded to the greatest double or to infinity. -/
@[irreducible] def roof : Nat := 2 ^ 1024 - 2 ^ 971 - 2 ^ 970

/-- Numbers of seventeen digits with a power of ten, up to `roof`, have finite products. -/
theorem isFinite_mul_of_le {n k : Nat} (hn : n < 10 ^ 17) (hle : n * 10 ^ k ≤ roof)
    (hk : k ≤ 308) : ((.ofInt n : Double).mul (powerOfTen k)).isFinite = true := by
  -- products grow with both factors, so for each power the most figures below the roof decide
  have htable : ∀ i < 18,
      (.ofInt (min (10 ^ 17) (roof / 10 ^ (291 + i)) : Nat) : Double).isFinite = true ∧
        (powerOfTen (291 + i)).isFinite = true ∧
        ((.ofInt (min (10 ^ 17) (roof / 10 ^ (291 + i)) : Nat) : Double).mul
          (powerOfTen (291 + i))).isFinite = true := by
    decide +kernel
  obtain ⟨i, hi, hki, hni⟩ : ∃ i < 18, k ≤ 291 + i ∧ n ≤ min (10 ^ 17) (roof / 10 ^ (291 + i)) := by
    rcases Nat.lt_or_ge k 291 with hlow | hhigh
    · have hroom : 10 ^ 17 ≤ roof / 10 ^ (291 + 0) := by decide +kernel
      exact ⟨0, by omega, by omega, Nat.le_min.mpr ⟨hn.le, Nat.le_trans hn.le hroom⟩⟩
    · refine ⟨k - 291, by omega, by omega, Nat.le_min.mpr ⟨hn.le, ?_⟩⟩
      have hpos : 0 < 10 ^ k := Nat.pow_pos (by decide)
      rw [Nat.add_sub_cancel' hhigh, Nat.le_div_iff_mul_le hpos]
      exact hle
  obtain ⟨hfinite, hpower, hproduct⟩ := htable i hi
  exact isFinite_mul_mono hni hki hfinite hpower hproduct

theorem scaleByTen_natCast {x : Double} {k : Nat} (hk : k ≤ maxPower)
    (h : (x.mul (powerOfTen k)).isFinite = true) :
    scaleByTen x k = some (x.mul (powerOfTen k)) := by
  rw [scaleByTen, Int.natAbs_natCast, if_pos hk, if_pos (Int.natCast_nonneg k)]
  dsimp only
  rw [Binary.isInfinite_of_isFinite h, if_neg Bool.false_ne_true]

theorem isSome_scaleByTen_of_le {n k : Nat} (hn : n < 10 ^ 17) (hle : n * 10 ^ k ≤ roof) :
    (scaleByTen (.ofInt n) k).isSome := by
  rcases Nat.lt_or_ge maxPower k with hlarge | hk
  · have hzero : n = 0 := by
      by_contra hne
      have hpow : 10 ^ (maxPower + 1) ≤ 10 ^ k := Nat.pow_le_pow_right (by decide) hlarge
      have hmul := Nat.le_mul_of_pos_left (10 ^ k) (Nat.pos_of_ne_zero hne)
      have hroof : roof < 10 ^ (maxPower + 1) := by decide +kernel
      exact absurd (hpow.trans (hmul.trans hle)) (Nat.not_le.mpr hroof)
    have hnot : ¬(k : Int).natAbs ≤ maxPower := by rw [Int.natAbs_natCast]; omega
    have hisZero : (.ofInt (n : Int) : Double).isZero = true := by rw [hzero]; decide
    rw [scaleByTen, if_neg hnot, if_pos hisZero]
    rfl
  · rw [scaleByTen_natCast hk (isFinite_mul_of_le hn hle hk)]
    rfl

/-- The greatest double has seventeen figures. -/
theorem shortest_greatest :
    Format.double.shortest .toEven (Format.double.infinity - 1) = ⟨17976931348623157, 292⟩ := by
  decide +kernel

end Json

namespace Binary

variable {f : Format}

theorem written_greatest {x : Double} (h : x.magnitude = Format.double.infinity - 1) :
    x.written = ⟨17976931348623157, 292⟩ := by
  have hzero : x.isZero = false := by
    rw [isZero, h]
    decide
  rw [written, figures, hzero, if_neg Bool.false_ne_true, h, shortest_greatest]
  refine if_neg fun hwhole => ?_
  have hlength := List.length_pos_iff.mpr (Text.digits_ne_nil 17976931348623157)
  have hlead : Text.leadingExponent 17976931348623157 292 ≤ 15 := hwhole.2
  rw [Text.leadingExponent] at hlead
  omega

theorem stands_written {x : Binary f} (hx : x.isFinite = true) :
    Stands (.ofInt x.written.digits) (rounded x.written.digits) :=
  stands_ofInt ((few_figures .toEven hx).spelt_lt f)

theorem isSome_scaleByTen_written {x : Binary f} (hx : x.isFinite = true) :
    (scaleByTen (.ofInt x.written.digits) x.written.exponent).isSome := by
  rcases lt_or_ge x.written.exponent 0 with hneg | hnonneg
  · obtain ⟨y, hy, -⟩ := scaleByTen_of_neg (stands_written hx) hneg
    rw [hy]
    rfl
  · obtain ⟨k, hk⟩ := Int.eq_ofNat_of_zero_le hnonneg
    have hread := Format.readsBack_iff.mp (readsBack_written hx)
    have hfinite := magnitude_lt_of_isFinite hx
    have hfew : x.written.digits < 10 ^ 17 := (few_figures .toEven hx).spelt_lt f
    rw [hk] at hread ⊢
    rw [Int.toNat_natCast, Int.toNat_of_nonpos (by omega), Nat.pow_zero] at hread
    by_cases hle : x.written.digits * 10 ^ k ≤ roof
    · exact isSome_scaleByTen_of_le hfew hle
    · have hmono := nearest_natCast_mono f
        (show roof + 1 ≤ x.written.digits * 10 ^ k by omega)
      rw [hread] at hmono
      cases f with
      | single =>
          have hroof : Format.single.nearest (roof + 1) 1 = Format.single.infinity := by
            decide +kernel
          rw [hroof] at hmono
          omega
      | double =>
          have hroof : Format.double.nearest (roof + 1) 1 = Format.double.infinity - 1 := by
            decide +kernel
          rw [hroof] at hmono
          have hwritten := written_greatest (x := x) (by omega)
          have hproduct : ((.ofInt ((17976931348623157 : Nat) : Int) : Double).mul
              (powerOfTen 292)).isFinite = true := by
            decide +kernel
          rw [hwritten] at hk ⊢
          have hk' : (292 : Int) = k := hk
          obtain rfl : k = 292 := by omega
          rw [scaleByTen_natCast (by decide) hproduct]
          rfl

/-- What a float comes back as. Its digits are rounded to a double, that times its power of ten is
rounded again, and the result is converted to the format. -/
def reread (x : Binary f) : Option (Binary f) :=
  if x.isFinite then
    (scaleByTen (.ofInt x.written.digits) x.written.exponent).map fun y =>
      (if x.negative then y.neg else y).convert
  else none

/-- A double as a float of the format, with the sign that it is given. -/
theorem convert_signed {y : Double} {v : ℚ} (hy : Stands y v) (negative : Bool) :
    ((if negative then y.neg else y).convert : Binary f) = ofMagnitude negative (f.round v) := by
  have hbits : ofMagnitude false y.magnitude = y := by
    rw [← hy.positive, ofMagnitude_magnitude]
  have hsigned : (if negative then y.neg else y) = ofMagnitude negative y.magnitude := by
    cases negative with
    | true => simp [neg, hy.positive]
    | false => exact hbits.symm
  have hlt := magnitude_lt_of_isFinite hy.finite
  have hlt' := hlt.trans (infinity_lt_signBit .double)
  have hratio := ratio_eq (ofMagnitude negative y.magnitude : Double)
  rw [magnitude_ofMagnitude _ hlt', hy.value] at hratio
  rw [hsigned, convert_of_isFinite (isFinite_ofMagnitude _ hlt), ofRatio,
    negative_ofMagnitude _ hlt', Format.round_eq (ratio_pos _) hratio]

/-- A finite float comes back as the one nearest to what its figures are taken for. -/
theorem reread_eq {x : Binary f} (hx : x.isFinite = true) :
    x.reread = some (ofMagnitude x.negative (f.round x.written.taken)) := by
  obtain ⟨y, hy⟩ := Option.isSome_iff_exists.mp (isSome_scaleByTen_written hx)
  have hstands : Stands y x.written.taken := by
    rw [Figures.taken]
    split
    · next hnonneg => exact stands_of_scaleByTen (stands_written hx) hnonneg hy
    · next hneg =>
        obtain ⟨y', hy', hstands⟩ := scaleByTen_of_neg (stands_written hx) (not_le.mp hneg)
        obtain rfl : y = y' := Option.some.inj (hy.symm.trans hy')
        exact hstands
  rw [reread, if_pos hx, hy, Option.map_some, convert_signed hstands]

theorem isSome_reread {x : Binary f} : x.reread.isSome ↔ x.isFinite = true := by
  constructor
  · intro h
    by_contra hx
    rw [reread, if_neg hx] at h
    cases h
  · intro hx
    rw [reread_eq hx]
    rfl

/-! ## Floats that come back -/

/-- The number that the figures are taken for still rounds to the float. -/
def Survives (x : Binary f) : Prop :=
  x.isFinite = true ∧ f.round x.written.taken = x.magnitude

theorem same_ofMagnitude_iff {x : Binary f} (hx : x.isFinite = true) {magnitude : Nat}
    (h : magnitude ≤ f.infinity) :
    x.same (ofMagnitude x.negative magnitude) = true ↔ magnitude = x.magnitude := by
  have hlt := h.trans_lt (infinity_lt_signBit f)
  have hnan : (ofMagnitude x.negative magnitude : Binary f).isNaN = false := by
    rw [isNaN, magnitude_ofMagnitude _ hlt, decide_eq_false_iff_not]
    exact not_lt.mpr h
  have hx' := isNaN_of_isFinite hx
  simp only [same, partialCompare, rank, hx', hnan, negative_ofMagnitude _ hlt,
    magnitude_ofMagnitude _ hlt, Bool.or_self, Bool.and_self, Bool.false_or, Bool.false_eq_true,
    if_false, beq_iff_eq, Option.some.injEq, Std.compare_eq_iff_eq]
  split <;> omega

/-- Those are the floats that come back equal. -/
theorem survives_iff {x : Binary f} :
    x.Survives ↔ ∃ y, x.reread = some y ∧ x.same y = true := by
  constructor
  · rintro ⟨hx, hround⟩
    refine ⟨_, reread_eq hx, ?_⟩
    rw [hround, ofMagnitude_magnitude]
    exact x.same_self
  · rintro ⟨y, hy, hsame⟩
    have hx : x.isFinite = true := isSome_reread.mp (Option.isSome_iff_exists.mpr ⟨y, hy⟩)
    rw [reread_eq hx] at hy
    obtain rfl := Option.some.inj hy
    exact ⟨hx, (same_ofMagnitude_iff hx (f.nearest_le_infinity _ _)).mp hsame⟩

/-- A float with short figures: the digits and the power of ten are doubles, and for a single the
number is below `2 ^ 53` and has at most twelve decimals. -/
structure IsShort (x : Binary f) : Prop where
  finite : x.isFinite = true
  digits : x.written.digits < 2 ^ 53
  exponent : x.written.exponent.natAbs ≤ 22
  single : f = .single → -12 ≤ x.written.exponent ∧
    x.written.digits * 10 ^ x.written.exponent.toNat < 2 ^ 53

/-- Floats with short figures come back. -/
theorem survives_of_isShort {x : Binary f} (h : x.IsShort) : x.Survives := by
  have hread := Format.readsBack_iff.mp (readsBack_written h.finite)
  have hlt := magnitude_lt_of_isFinite h.finite
  have hden : 0 < 10 ^ (-x.written.exponent).toNat := Nat.pow_pos (by decide)
  have hvalue : ((x.written.digits * 10 ^ x.written.exponent.toNat : Nat) : ℚ) /
      (10 ^ (-x.written.exponent).toNat : Nat) = x.written.value :=
    Format.ratio_pow _ _
  refine ⟨h.finite, ?_⟩
  rw [Figures.taken_of_short h.digits h.exponent, rounded, Format.round_eq hden hvalue]
  cases f with
  | double => rw [hread, Format.round_value hlt]
  | single =>
      obtain ⟨hdecimals, hfew⟩ := h.single rfl
      have hround := natAbs_num_div_den (Format.double.value_nonneg
        (Format.double.nearest (x.written.digits * 10 ^ x.written.exponent.toNat)
          (10 ^ (-x.written.exponent).toNat)))
      rw [Format.round, Format.nearest_nearest hfew (by omega) (Rat.den_pos _) hround]
      exact hread

end Binary

end RowCode
