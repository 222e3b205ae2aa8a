import RowCode.Proofs.Binary.Shortest
import RowCode.Proofs.Decimal.Value
import RowCode.Proofs.Rounding

/-!
# Quotients of decimals

What a division gives, told by the quotient of the two unscaled integers alone.
It is taken to as many places as it needs to come out even or to have a hundred
digits, whichever is first (`IsPlaces`), and rounded there to the nearest
integer. `isQuotient_iff` says that there is one such decimal and that it is the
one that is computed.

The division works digit by digit. Both of its loops keep a numerator, raised by
so many powers of ten (`raise_eq`, `longDivide_eq`): the second one holds the
quotient and the remainder of it, so what it has done after some places does not
depend on how it got there.
-/

namespace RowCode.Decimal

/-! ## Where a quotient ends -/

/-- At so many places the number comes out even or has a hundred digits. -/
def Ends (q : ℚ) (places : Nat) : Prop :=
  IsMultiple q (-places) ∨ 10 ^ (quotientDigits - 1) ≤ |q| * 10 ^ places

/-- The first number of places at which the number ends. -/
structure IsPlaces (q : ℚ) (places : Nat) : Prop where
  ends : Ends q places
  least : ∀ p < places, ¬Ends q p

theorem IsPlaces.unique {q : ℚ} {p p' : Nat} (h : IsPlaces q p) (h' : IsPlaces q p') : p = p' := by
  rcases Nat.lt_trichotomy p p' with hlt | heq | hlt
  · exact absurd h.ends (h'.least p hlt)
  · exact heq
  · exact absurd h'.ends (h.least p' hlt)

/-- What the quotient of two decimals is to be. Its unscaled integer is the
nearest one to the quotient of those of the two, at the place where that ends. -/
def IsQuotient (x y z : Decimal) : Prop :=
  let q : ℚ := x.unscaled / y.unscaled
  ∃ places : Nat, IsPlaces q places ∧ IsNearest (q * 10 ^ places) z.unscaled ∧
    z.scale = wrapScale (x.scale - y.scale + places)

theorem IsQuotient.unique {x y z z' : Decimal} (h : IsQuotient x y z) (h' : IsQuotient x y z') :
    z = z' := by
  obtain ⟨p, hp, hn, hscale⟩ := h
  obtain ⟨p', hp', hn', hscale'⟩ := h'
  obtain rfl := hp.unique hp'
  obtain ⟨n, scale⟩ := z
  obtain ⟨n', scale'⟩ := z'
  obtain rfl : n = n' := hn.unique hn'
  obtain rfl : scale = scale' := hscale.trans hscale'.symm
  rfl

/-! ## The same for natural numbers -/

/-- `Ends` for a fraction. -/
def EndsNat (num den places : Nat) : Prop :=
  den ∣ num * 10 ^ places ∨ 10 ^ (quotientDigits - 1) * den ≤ num * 10 ^ places

section

variable {num den : Nat}

theorem ends_div_iff (hden : 0 < den) (places : Nat) :
    Ends ((num : ℚ) / den) places ↔ EndsNat num den places := by
  have hpos : (0 : ℚ) < den := by exact_mod_cast hden
  have heven : IsMultiple ((num : ℚ) / den) (-places) ↔ den ∣ num * 10 ^ places := by
    have hmove : ∀ k : Int, (num : ℚ) / den = k * 10 ^ (-(places : Int)) ↔
        ((num * 10 ^ places : Nat) : Int) = den * k := by
      intro k
      rw [zpow_neg, zpow_natCast, div_eq_iff hpos.ne', mul_right_comm, eq_mul_inv_iff_mul_eq₀
        (by positivity), mul_comm (k : ℚ)]
      exact_mod_cast Iff.rfl
    rw [← Int.natCast_dvd_natCast]
    exact exists_congr hmove
  have hmany : 10 ^ (quotientDigits - 1) ≤ |(num : ℚ) / den| * 10 ^ places ↔
      10 ^ (quotientDigits - 1) * den ≤ num * 10 ^ places := by
    rw [abs_of_nonneg (by positivity), div_mul_eq_mul_div, le_div_iff₀ hpos]
    exact_mod_cast Iff.rfl
  rw [Ends, EndsNat, heven, hmany]

theorem ends_neg_iff {q : ℚ} (places : Nat) : Ends (-q) places ↔ Ends q places := by
  rw [Ends, Ends, isMultiple_neg_iff, abs_neg]

/-! ## The two loops -/

/-- The numerator is raised until it reaches the denominator, and no further. -/
theorem raise_eq (hnum : 0 < num) (den count : Nat) :
    ∃ r, raise num den count = (num * 10 ^ r, count + r) ∧ den ≤ num * 10 ^ r ∧
      ∀ i < r, num * 10 ^ i < den := by
  induction num, count using raise.induct den with
  | case1 num count h ih =>
      obtain ⟨r, hraise, hreach, hleast⟩ := ih (by omega)
      have hpow : ∀ i, 10 * num * 10 ^ i = num * 10 ^ (i + 1) := fun i => by
        rw [Nat.pow_succ]
        ring
      refine ⟨r + 1, ?_, hpow r ▸ hreach, ?_⟩
      · rw [raise, if_pos h, hraise, hpow, Nat.add_assoc, Nat.add_comm 1 r]
      · rintro (_ | i) hi
        · rw [Nat.pow_zero, Nat.mul_one]
          exact h.2
        · rw [← hpow]
          exact hleast i (by omega)
  | case2 num count h =>
      refine ⟨0, ?_, ?_, fun i hi => absurd hi (Nat.not_lt_zero i)⟩
      · rw [raise, if_neg h, Nat.pow_zero, Nat.mul_one, Nat.add_zero]
      · rw [Nat.pow_zero, Nat.mul_one]
        omega

/-- One digit more is the quotient of ten times the numerator. -/
theorem next_digit (num : Nat) (hden : 0 < den) :
    10 * (num / den) + 10 * (num % den) / den = 10 * num / den ∧
      10 * (num % den) % den = 10 * num % den := by
  have hsplit : 10 * num = 10 * (num % den) + den * (10 * (num / den)) := by
    conv_lhs => rw [← Nat.div_add_mod num den]
    ring
  rw [hsplit, Nat.add_mul_div_left _ _ hden, Nat.add_mul_mod_self_left, Nat.add_comm]
  exact ⟨rfl, rfl⟩

/-- Digits are appended until nothing remains, or there is no room left. -/
theorem longDivide_eq (hden : 0 < den) : ∀ (room num appended : Nat),
    ∃ j ≤ room, longDivide den room (num / den) (num % den) appended =
        (num * 10 ^ j / den, num * 10 ^ j % den, appended + j) ∧
      (num * 10 ^ j % den = 0 ∨ j = room) ∧ ∀ i < j, num * 10 ^ i % den ≠ 0
  | 0, num, appended => by
      refine ⟨0, Nat.le_refl 0, ?_, .inr rfl, fun i hi => absurd hi (Nat.not_lt_zero i)⟩
      rw [longDivide, Nat.pow_zero, Nat.mul_one, Nat.add_zero]
  | room + 1, num, appended => by
      by_cases hrem : num % den = 0
      · refine ⟨0, Nat.zero_le _, ?_, .inl ?_, fun i hi => absurd hi (Nat.not_lt_zero i)⟩
        · rw [longDivide, if_pos hrem, Nat.pow_zero, Nat.mul_one, Nat.add_zero]
        · rw [Nat.pow_zero, Nat.mul_one]
          exact hrem
      · obtain ⟨j, hj, hdivide, hend, hleast⟩ := longDivide_eq hden room (10 * num) (appended + 1)
        have hpow : ∀ i, 10 * num * 10 ^ i = num * 10 ^ (i + 1) := fun i => by
          rw [Nat.pow_succ]
          ring
        obtain ⟨hquotient, hrest⟩ := next_digit num hden
        refine ⟨j + 1, Nat.succ_le_succ hj, ?_, ?_, ?_⟩
        · rw [longDivide, if_neg hrem, hquotient, hrest, hdivide, hpow, Nat.add_assoc,
            Nat.add_comm 1 j]
        · rw [← hpow]
          exact hend.imp_right (congrArg Nat.succ)
        · rintro (_ | i) hi
          · rw [Nat.pow_zero, Nat.mul_one]
            exact hrem
          · rw [← hpow]
            exact hleast i (by omega)

/-- The room for digits is what the quotient lacks of a hundred. -/
theorem ends_of_room {j : Nat} (hreach : den ≤ num) (hden : 0 < den)
    (hj : quotientDigits - Text.digitCount (num / den) ≤ j) :
    10 ^ (quotientDigits - 1) * den ≤ num * 10 ^ j := by
  obtain ⟨c, hcount, hlow, -⟩ := Text.exists_digitCount (Nat.div_pos hreach hden)
  rw [hcount] at hj
  have hpow : 10 ^ (quotientDigits - 1) ≤ 10 ^ c * 10 ^ j := by
    rw [← Nat.pow_add]
    exact Nat.pow_le_pow_right (by decide) (by omega)
  calc 10 ^ (quotientDigits - 1) * den ≤ 10 ^ c * 10 ^ j * den := Nat.mul_le_mul_right _ hpow
    _ = 10 ^ c * den * 10 ^ j := by ring
    _ ≤ num / den * den * 10 ^ j := by gcongr
    _ ≤ num * 10 ^ j := by gcongr; exact Nat.div_mul_le_self num den

theorem lt_of_room {i : Nat} (hreach : den ≤ num) (hden : 0 < den)
    (hi : i < quotientDigits - Text.digitCount (num / den)) :
    num * 10 ^ i < 10 ^ (quotientDigits - 1) * den := by
  obtain ⟨c, hcount, -, hhigh⟩ := Text.exists_digitCount (Nat.div_pos hreach hden)
  rw [hcount] at hi
  have hnum : num < 10 ^ (c + 1) * den := (Nat.div_lt_iff_lt_mul hden).mp hhigh
  have hpow : 10 ^ (c + 1) * 10 ^ i ≤ 10 ^ (quotientDigits - 1) := by
    rw [← Nat.pow_add]
    exact Nat.pow_le_pow_right (by decide) (by omega)
  calc num * 10 ^ i < 10 ^ (c + 1) * den * 10 ^ i :=
        Nat.mul_lt_mul_of_pos_right hnum (Nat.pow_pos (by decide))
    _ = 10 ^ (c + 1) * 10 ^ i * den := by ring
    _ ≤ 10 ^ (quotientDigits - 1) * den := Nat.mul_le_mul_right _ hpow

/-- The digit behind the last one decides. -/
theorem round_digit (num : Nat) (hden : 0 < den) :
    (if 5 ≤ 10 * (num % den) / den then num / den + 1 else num / den) =
      roundDiv .away num den := by
  have hhalf : 5 ≤ 10 * (num % den) / den ↔ den ≤ 2 * (num % den) := by
    rw [Nat.le_div_iff_mul_le hden]
    omega
  rw [roundDiv]
  by_cases hless : 2 * (num % den) < den
  · rw [if_neg (by omega), if_pos hless]
  · rw [if_pos (by omega), if_neg hless]
    split <;> rfl

/-- A fraction is rounded at the first place where it ends. -/
theorem divideNat_eq (hnum : 0 < num) (hden : 0 < den) :
    ∃ places, divideNat num den = (roundDiv .away (num * 10 ^ places) den, places) ∧
      EndsNat num den places ∧ ∀ p < places, ¬EndsNat num den p := by
  obtain ⟨r, hraise, hreach, hbelow⟩ := raise_eq hnum den 0
  obtain ⟨j, hroom, hdivide, hend, hrem⟩ := longDivide_eq hden
    (quotientDigits - Text.digitCount (num * 10 ^ r / den)) (num * 10 ^ r) 0
  have hpow : ∀ i, num * 10 ^ r * 10 ^ i = num * 10 ^ (r + i) := fun i => by
    rw [Nat.pow_add, Nat.mul_assoc]
  refine ⟨r + j, ?_, ?_, ?_⟩
  · rw [divideNat, hraise]
    dsimp only
    rw [hdivide, round_digit _ hden, hpow, Nat.zero_add, Nat.zero_add]
  · rw [EndsNat, ← hpow]
    rcases hend with heven | hfull
    · exact .inl (Nat.dvd_of_mod_eq_zero heven)
    · exact .inr (ends_of_room hreach hden hfull.ge)
  · intro p hp hends
    have hmany : num * 10 ^ p < 10 ^ (quotientDigits - 1) * den ∧ ¬den ∣ num * 10 ^ p := by
      rcases Nat.lt_or_ge p r with hlow | hhigh
      · -- the numerator has not reached the denominator yet
        have hless := hbelow p hlow
        have hpos : 0 < num * 10 ^ p := Nat.mul_pos hnum (Nat.pow_pos (by decide))
        exact ⟨Nat.lt_of_lt_of_le hless (Nat.le_mul_of_pos_left den (Nat.pow_pos (by decide))),
          Nat.not_dvd_of_pos_of_lt hpos hless⟩
      · obtain ⟨i, rfl⟩ := Nat.exists_eq_add_of_le hhigh
        have hi : i < j := by omega
        rw [← hpow]
        exact ⟨lt_of_room hreach hden (by omega),
          fun hdvd => hrem i hi (Nat.mod_eq_zero_of_dvd hdvd)⟩
    rcases hends with heven | hfull
    · exact hmany.2 heven
    · exact absurd hfull (Nat.not_le_of_lt hmany.1)

end

/-! ## Quotients -/

theorem cast_eq_signed (m : Int) :
    (m : ℚ) = if m < 0 then -(m.natAbs : ℚ) else (m.natAbs : ℚ) := by
  rw [Nat.cast_natAbs, Int.cast_abs]
  split
  · next hneg => rw [abs_of_neg (by exact_mod_cast hneg), neg_neg]
  · next hpos => rw [abs_of_nonneg (by exact_mod_cast not_lt.mp hpos)]

/-- The sign of a fraction is apart from its magnitude. -/
theorem div_eq_signed (x y : Decimal) :
    (x.unscaled : ℚ) / y.unscaled =
      if x.negative != y.negative then -((x.unscaled.natAbs : ℚ) / y.unscaled.natAbs)
      else (x.unscaled.natAbs : ℚ) / y.unscaled.natAbs := by
  rw [cast_eq_signed x.unscaled, cast_eq_signed y.unscaled, negative, negative]
  by_cases hx : x.unscaled < 0 <;> by_cases hy : y.unscaled < 0 <;>
    simp [hx, hy, neg_div, div_neg]

/-- The quotient of equal integers needs no case of its own. -/
theorem quotient_eq {x y : Decimal} (hx : x.unscaled ≠ 0) (hone : y.isOne = false)
    {n places : Nat} (hdivide : divideNat x.unscaled.natAbs y.unscaled.natAbs = (n, places)) :
    x.quotient y = ⟨if x.negative != y.negative then -(n : Int) else n,
      wrapScale (x.scale - y.scale + places)⟩ := by
  rw [quotient, hdivide, hone, isZero, decide_eq_false hx, Bool.or_false,
    if_neg Bool.false_ne_true]
  split
  · next heq =>
      have hpos : 0 < x.unscaled.natAbs := Int.natAbs_pos.mpr hx
      obtain ⟨places', hdivide', -, hleast⟩ := divideNat_eq hpos hpos
      obtain rfl : places' = 0 := by
        by_contra hne
        exact hleast 0 (Nat.pos_of_ne_zero hne) (.inl (Nat.dvd_mul_right _ _))
      rw [← heq, hdivide', Nat.pow_zero, Nat.mul_one, roundDiv_of_dvd _ (Nat.dvd_refl _) hpos,
        Nat.div_self hpos] at hdivide
      obtain ⟨rfl, rfl⟩ := Prod.mk.inj hdivide
      simp [negative, heq]
  · rfl

/-- Dividing by a decimal other than zero that is not recognised as one gives
the quotient, and nothing else is one. -/
theorem isQuotient_iff {x y z : Decimal} (hx : x.unscaled ≠ 0) (hy : y.unscaled ≠ 0)
    (hone : y.isOne = false) : IsQuotient x y z ↔ z = x.quotient y := by
  have hx' : 0 < x.unscaled.natAbs := Int.natAbs_pos.mpr hx
  have hy' : 0 < y.unscaled.natAbs := Int.natAbs_pos.mpr hy
  suffices h : IsQuotient x y (x.quotient y) by
    constructor
    · exact fun hz => hz.unique h
    · rintro rfl
      exact h
  obtain ⟨places, hdivide, hends, hleast⟩ := divideNat_eq hx' hy'
  have hplaces : IsPlaces ((x.unscaled.natAbs : ℚ) / y.unscaled.natAbs) places :=
    ⟨(ends_div_iff hy' places).mpr hends, fun p hp h => hleast p hp ((ends_div_iff hy' p).mp h)⟩
  have hnearest := isNearest_roundDiv (x.unscaled.natAbs * 10 ^ places) hy'
  rw [Nat.cast_mul, mul_div_right_comm, Nat.cast_pow, Nat.cast_ofNat] at hnearest
  rw [quotient_eq hx hone hdivide, IsQuotient, div_eq_signed]
  refine ⟨places, ?_, ?_, rfl⟩
  · split
    · exact ⟨(ends_neg_iff _).mpr hplaces.ends,
        fun p hp h => hplaces.least p hp ((ends_neg_iff p).mp h)⟩
    · exact hplaces
  · split
    · rw [neg_mul]
      exact hnearest.neg
    · exact hnearest

end RowCode.Decimal
