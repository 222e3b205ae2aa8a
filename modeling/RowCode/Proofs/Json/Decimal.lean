import RowCode.Decimal.Text
import RowCode.Proofs.Decimal.Equality
import RowCode.Proofs.Json.Number

/-!
# Decimals read back

For interchange a decimal is written as the pair it is, with trailing zeros kept
and an exponent where there would be many zeros next to the point. Two things do
not show in the text: the scale of zero, and the scale of a number whose zeros
stand before the point, written out. So another pair of the same value comes back
(`rewritten`, `readPair?_exchangeText`).

Its scale differs by at most `maxTrailingZeros`, but that includes ten, and
equality of decimals departs from value at ten (`same_rewritten`).
-/

namespace RowCode.Decimal

open Text

/-- The pair that the text for interchange shows: zeros before the point that are
written out are digits again, and zero has no scale. -/
def rewritten (d : Decimal) : Decimal :=
  if d.unscaled = 0 then zero
  else if -maxTrailingZeros ≤ d.scale ∧ d.scale < 0 then d.rescale 0
  else d

theorem value_rewritten (d : Decimal) : d.rewritten.value = d.value := by
  unfold rewritten
  split
  · next hzero => rw [value_eq_zero_iff.mpr hzero, zero, value_zero]
  · split
    · next hscale => exact value_rescale hscale.2.le
    · rfl

/-- What comes back is equal to what was written, unless ten zeros became digits
of a number that slips. -/
theorem same_rewritten (d : Decimal) :
    d.same d.rewritten = true ↔ ¬(d.scale = -10 ∧ Slips d.unscaled.natAbs) := by
  have hslips : ¬Slips 0 := not_losesCarry_zero (Nat.two_pow_pos 32)
  rw [same_eq_true_iff (compare_eq_iff_value.mpr (value_rewritten d).symm), not_iff_not]
  unfold rewritten Apart
  split
  · next hzero => simp [hzero, zero, hslips]
  · next hne =>
    split
    · next hscale =>
      rw [rescale, if_neg hne]
      constructor
      · rintro (⟨hten, -⟩ | ⟨hten, hs⟩)
        · dsimp only at hten
          omega
        · exact ⟨by dsimp only at hten; omega, hs⟩
      · rintro ⟨hten, hs⟩
        exact Or.inr ⟨by dsimp only; omega, hs⟩
    · next hscale =>
      rw [maxTrailingZeros] at hscale
      omega

/-! ## Reading the text -/

/-- A magnitude in the text of a decimal, taken apart: digits before and behind
the point, and an exponent. -/
structure Shows (n : Nat) (scale : Int) (whole fraction mark : List Char) : Prop extends
    IsNumeral whole fraction where
  value : ofDigits (whole ++ fraction) = n
  mark_head : ∀ c ∈ mark.head?, c = 'e' ∨ c = 'E'
  power : readPower? mark = some (fraction.length - scale)

theorem shows_digits (n : Nat) : Shows n 0 (digits n) [] [] :=
  ⟨isNumeral_digits n rfl, by rw [List.append_nil, ofDigits_digits], nofun, rfl⟩

/-- A very small number, with an exponent. -/
theorem exists_shows_small {n : Nat} (hn : 0 < n) (scale : Int) :
    ∃ whole fraction mark, scientific ['E'] n (-scale) = pointed whole fraction ++ mark ∧
      Shows n scale whole fraction mark := by
  obtain ⟨d, ds, hdigits, hnumeral, hwrite⟩ := exists_scientific hn ['E'] (-scale)
  refine ⟨[d], ds, 'E' :: Text.ofInt (leadingExponent n (-scale)), by simp [hwrite],
    ⟨hnumeral, ?_, ?_, ?_⟩⟩
  · rw [List.singleton_append, ← hdigits, ofDigits_digits]
  · rintro c ⟨rfl⟩
    exact Or.inr rfl
  · have hcount := congrArg List.length hdigits
    rw [List.length_cons] at hcount
    rw [readPower?, readInt?_ofInt, leadingExponent, Option.some.injEq]
    omega

/-- A very large number, with the count of its zeros. -/
theorem shows_large (n zeros : Nat) :
    Shows n (-zeros) (digits n) [] ('e' :: '+' :: Text.ofInt zeros) := by
  refine ⟨isNumeral_digits n rfl, by rw [List.append_nil, ofDigits_digits], ?_, ?_⟩
  · rintro c ⟨rfl⟩
    exact Or.inl rfl
  · have hsigned : Text.ofInt zeros = digits zeros := by
      rw [Text.ofInt, decide_eq_false (by omega), Int.natAbs_natCast]
      rfl
    have hread : readInt? ('+' :: digits zeros) = some (zeros : Int) :=
      readInt?_eq_some_iff.mpr ⟨digits_ne_nil zeros, all_isDigit_digits zeros,
        by simp [splitSign, ofDigits_digits]⟩
    rw [readPower?, hsigned, hread, List.length_nil, Option.some.injEq]
    omega

/-- The text of a magnitude shows the pair that comes back. -/
theorem exists_shows (d : Decimal) : ∃ whole fraction mark,
    exchangeMagnitude d.unscaled.natAbs d.scale = pointed whole fraction ++ mark ∧
      Shows d.rewritten.unscaled.natAbs d.rewritten.scale whole fraction mark := by
  rw [exchangeMagnitude]
  by_cases hzero : d.unscaled = 0
  · rw [if_pos (by omega), rewritten, if_pos hzero]
    exact ⟨digits 0, [], [], by rw [digits_of_lt (by decide)]; rfl, shows_digits 0⟩
  have hpos : 0 < d.unscaled.natAbs := Int.natAbs_pos.mpr hzero
  have hlength := List.length_pos_iff.mpr (digits_ne_nil d.unscaled.natAbs)
  rw [if_neg hpos.ne', rewritten, if_neg hzero]
  by_cases hkept : -maxTrailingZeros ≤ d.scale ∧ d.scale < 0
  · rw [if_neg (by omega), if_neg (by omega), if_pos hkept, positional_of_nonneg _ (by omega),
      rescale, if_neg hzero, Int.natAbs_mul, Int.natAbs_pow, Int.zero_sub]
    exact ⟨_, [], [], by simp [pointed], shows_digits _⟩
  rw [if_neg hkept]
  split
  · exact exists_shows_small hpos d.scale
  · split
    · next htrailing =>
      obtain ⟨zeros, hzeros⟩ := Int.exists_eq_neg_ofNat (a := d.scale) (by omega)
      rw [hzeros, Int.neg_neg]
      exact ⟨_, _, _, rfl, shows_large _ zeros⟩
    · rcases lt_or_ge 0 d.scale with hfraction | hwhole
      · obtain ⟨whole, fraction, h⟩ := exists_places hpos (Int.neg_neg_of_pos hfraction)
        refine ⟨whole, fraction, [], by rw [h.positional_eq, List.append_nil], h.toIsNumeral,
          h.value, by simp, ?_⟩
        rw [h.length, readPower?, Option.some.injEq]
        omega
      · have hscale : d.scale = 0 := by omega
        rw [hscale, Int.neg_zero, positional_of_nonneg _ le_rfl, Int.toNat_zero, Nat.pow_zero,
          Nat.mul_one]
        exact ⟨_, [], [], by simp [pointed], shows_digits _⟩

/-- The parts of a text give the pair. -/
theorem readPair?_shows {n : Nat} {scale : Int} {whole fraction mark : List Char}
    (h : Shows n scale whole fraction mark) (negative : Bool) (hscale : isScale scale = true) :
    readPair? (signed negative (pointed whole fraction ++ mark)) =
      some ⟨if negative then -(n : Int) else n, scale⟩ := by
  have hsigned : signed negative whole ++ fraction = signed negative (whole ++ fraction) := by
    cases negative <;> rfl
  have hread : readInt? (signed negative whole ++ fraction) =
      some (if negative then -(n : Int) else n) := by
    rw [hsigned, readInt?_signed _ (by simp [h.ne_nil]) h.all_digits, h.value]
  have hfigures := isFigure_of_readInt? hread
  have hmantissa : ∀ c ∈ pointed (signed negative whole) fraction,
      (decide (c ≠ 'e' ∧ c ≠ 'E')) = true := by
    intro c hc
    rcases mem_pointed hc with rfl | hmem
    · decide
    · have he : c ≠ 'e' := ne_of_isFigure (hfigures c hmem) (by decide)
      have hE : c ≠ 'E' := ne_of_isFigure (hfigures c hmem) (by decide)
      simp [he, hE]
  have hmark : ∀ c ∈ mark.head?, (decide (c ≠ 'e' ∧ c ≠ 'E')) = false := by
    intro c hc
    rcases h.mark_head c hc with rfl | rfl <;> decide
  have happend : signed negative (pointed whole fraction ++ mark) =
      pointed (signed negative whole) fraction ++ mark := by
    rw [← signed_pointed]
    cases negative <;> rfl
  have hdifference : (fraction.length : Int) - (fraction.length - scale) = scale := by omega
  rw [happend, readPair?_of_span (Json.span_append hmantissa hmark), h.power, Option.bind_some,
    splitPoint_pointed hfigures, readUnscaled?_eq hfigures, hread, Option.bind_some]
  dsimp only
  rw [hdifference, if_pos hscale]

theorem negative_rewritten (d : Decimal) : d.rewritten.negative = d.negative := by
  have hsign : d.rewritten.unscaled.sign = d.unscaled.sign := by
    unfold rewritten
    split
    · next hzero => rw [hzero]; rfl
    · next hne =>
      split
      · rw [rescale, if_neg hne, sign_mul_pow]
      · rfl
  rw [negative, negative, decide_eq_decide, ← Int.sign_eq_neg_one_iff_neg, hsign,
    Int.sign_eq_neg_one_iff_neg]

/-- The text for interchange is read as a pair of the same value. -/
theorem readPair?_exchangeText {d : Decimal} (h : isScale d.scale = true) :
    readPair? d.exchangeText = some d.rewritten := by
  obtain ⟨whole, fraction, mark, hwrite, hshows⟩ := exists_shows d
  have hscale : isScale d.rewritten.scale = true := by
    unfold rewritten
    split
    · rfl
    · next hne =>
      split
      · rw [rescale, if_neg hne]; rfl
      · exact h
  have hunscaled : (if d.negative then -(d.rewritten.unscaled.natAbs : Int)
      else d.rewritten.unscaled.natAbs) = d.rewritten.unscaled := by
    rw [← negative_rewritten, negative]
    simp only [decide_eq_true_eq]
    omega
  rw [exchangeText, hwrite, readPair?_shows hshows _ hscale, hunscaled]

end RowCode.Decimal
