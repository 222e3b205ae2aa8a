import RowCode.Binary.Text
import RowCode.Proofs.Binary.Shortest
import RowCode.Proofs.Json.Number

/-!
# Texts of floats, taken apart

A finite float is written with its shortest figures: written out if the power of
ten of its leading digit is moderate, with an exponent otherwise, and never as an
integer (`Figures.exists_spells`). A whole number that is written out has a zero
behind its point, which counts as one more digit (`Figures.spelt`).

The reader collects digits in a word of 64 bits. Shortest figures fit, also with
that zero (`Figures.Few.spelt_lt`), so no digit is dropped, and what is read
depends on nothing but the figures (`Binary.readParts?_text`).
-/

namespace RowCode

open Json
open Text (IsNumeral ofInt pointed scientific leadingExponent ofDigits isDigit)

/-! ## Figures -/

/-- Up to which power of ten of its leading digit a whole number is written out. -/
def Format.wholeLimit : Format → Int
  | .single => 12
  | .double => 15

/-- From which power of ten of its leading digit on a fraction is written out. -/
def Format.fractionLimit : Format → Int
  | .single => -6
  | .double => -5

namespace Figures

/-- The figures as they are written for interchange: a whole number that is written out has a zero
behind the point. -/
def spelt (f : Format) (x : Figures) : Figures :=
  if 0 ≤ x.exponent ∧ leadingExponent x.digits x.exponent ≤ f.wholeLimit then
    ⟨x.digits * 10 ^ (x.exponent.toNat + 1), -1⟩
  else x

/-- Few figures, and no zero at their end, unless they are those of zero. -/
structure Few (x : Figures) : Prop where
  last : x.digits % 10 ≠ 0 ∨ x = ⟨0, 0⟩
  lt : x.digits < 10 ^ Format.enoughDigits

theorem value_spelt (f : Format) (x : Figures) : (x.spelt f).value = x.value := by
  unfold spelt
  split
  · next h =>
    obtain ⟨e, he⟩ := Int.eq_ofNat_of_zero_le h.1
    rw [value, value, he, Int.toNat_natCast, zpow_neg, zpow_one, zpow_natCast]
    push_cast
    ring
  · rfl

theorem lt_pow_length_digits (n : Nat) : n < 10 ^ (Text.digits n).length := by
  have h := Text.ofDigits_lt (Text.all_isDigit_digits n)
  rwa [Text.ofDigits_digits] at h

theorem Few.spelt_lt {x : Figures} (h : x.Few) (f : Format) :
    (x.spelt f).digits < 10 ^ Format.enoughDigits := by
  unfold spelt
  split
  · next hwhole =>
    obtain ⟨hexponent, hlead⟩ := hwhole
    have hlimit : f.wholeLimit ≤ 15 := by cases f <;> decide
    have hlength :
        (Text.digits x.digits).length + (x.exponent.toNat + 1) ≤ Format.enoughDigits := by
      unfold leadingExponent at hlead
      rw [Format.enoughDigits]
      omega
    calc x.digits * 10 ^ (x.exponent.toNat + 1)
        < 10 ^ (Text.digits x.digits).length * 10 ^ (x.exponent.toNat + 1) :=
          Nat.mul_lt_mul_of_pos_right (lt_pow_length_digits _) (Nat.pow_pos (by decide))
      _ = 10 ^ ((Text.digits x.digits).length + (x.exponent.toNat + 1)) := (Nat.pow_add ..).symm
      _ ≤ 10 ^ Format.enoughDigits := Nat.pow_le_pow_right (by decide) hlength
  · exact h.lt

/-- How figures are written for interchange. -/
structure Spells (f : Format) (x : Figures) (whole fraction mark : List Char)
    (exponent : Option Int) : Prop where
  numeral : IsNumeral whole fraction
  isExponent : IsExponent mark exponent
  write_eq : (Layout.interchange f).write x = pointed whole fraction ++ mark
  digits_eq : ofDigits (whole ++ fraction) = (x.spelt f).digits
  exponent_eq : exponent.getD 0 - fraction.length = (x.spelt f).exponent
  not_integer : fraction ≠ [] ∨ exponent ≠ none

theorem write_interchange (f : Format) (x : Figures) :
    (Layout.interchange f).write x =
      if x.digits = 0 ∨ f.fractionLimit ≤ leadingExponent x.digits x.exponent ∧
          leadingExponent x.digits x.exponent ≤ f.wholeLimit then
        Text.positional x.digits x.exponent ++ if 0 ≤ x.exponent then ['.', '0'] else []
      else
        scientific (if 0 ≤ leadingExponent x.digits x.exponent then ['e', '+'] else ['e'])
          x.digits x.exponent := by
  have hpositional : (Layout.interchange f).writePositional x =
      Text.positional x.digits x.exponent ++ if 0 ≤ x.exponent then ['.', '0'] else [] := by
    cases f <;> by_cases he : 0 ≤ x.exponent <;>
      simp [Layout.writePositional, Layout.interchange, he]
  have hscientific : (Layout.interchange f).writeScientific x =
      scientific (if 0 ≤ leadingExponent x.digits x.exponent then ['e', '+'] else ['e'])
        x.digits x.exponent := by
    cases f <;> simp [Layout.writeScientific, Layout.interchange]
  have hlimits : (Layout.interchange f).positional = some (f.fractionLimit, f.wholeLimit) := by
    cases f <;> rfl
  rw [← hpositional, ← hscientific, Layout.write, hlimits]
  dsimp only
  by_cases h : x.digits = 0 ∨ f.fractionLimit ≤ leadingExponent x.digits x.exponent ∧
      leadingExponent x.digits x.exponent ≤ f.wholeLimit
  · rw [if_pos h, if_pos (by simpa using h)]
  · rw [if_neg h, if_neg (by simpa using h)]

variable {f : Format} {x : Figures}

/-- A whole number that is written out. -/
theorem spells_whole (he : 0 ≤ x.exponent)
    (hlead : leadingExponent x.digits x.exponent ≤ f.wholeLimit) :
    Spells f x (Text.digits (x.digits * 10 ^ x.exponent.toNat)) ['0'] [] none where
  numeral := Text.isNumeral_digits _ (by decide)
  isExponent := .absent
  write_eq := by
    have hlow : f.fractionLimit ≤ leadingExponent x.digits x.exponent := by
      have hlength := List.length_pos_iff.mpr (Text.digits_ne_nil x.digits)
      have hlimit : f.fractionLimit ≤ 0 := by cases f <;> decide
      unfold leadingExponent
      omega
    rw [write_interchange, if_pos (Or.inr ⟨hlow, hlead⟩), if_pos he,
      Text.positional_of_nonneg _ he, List.append_nil]
    rfl
  digits_eq := by
    rw [spelt, if_pos ⟨he, hlead⟩, Text.ofDigits_append, Text.ofDigits_digits, Nat.pow_succ,
      ← Nat.mul_assoc]
    rfl
  exponent_eq := by
    rw [spelt, if_pos ⟨he, hlead⟩]
    rfl
  not_integer := Or.inl nofun

/-- A fraction that is written out. -/
theorem exists_spells_fraction (hlast : x.digits % 10 ≠ 0) (he : x.exponent < 0)
    (hlead : f.fractionLimit ≤ leadingExponent x.digits x.exponent ∧
      leadingExponent x.digits x.exponent ≤ f.wholeLimit) :
    ∃ whole fraction, Spells f x whole fraction [] none := by
  obtain ⟨whole, fraction, h⟩ := Text.exists_writes (e := x.exponent) (Or.inl hlast)
  have hspelt : x.spelt f = x := if_neg fun h => absurd h.1 (by omega)
  refine ⟨whole, fraction, h.toIsMinimal.isNumeral, .absent, ?_, ?_, ?_, ?_⟩
  · rw [write_interchange, if_pos (Or.inr hlead), if_neg (by omega), h.positional_eq]
  · rw [hspelt, h.value, Int.toNat_of_nonpos he.le, Nat.pow_zero, Nat.mul_one]
  · rw [hspelt, h.length, Option.getD_none]
    omega
  · have hlength := h.length
    refine Or.inl ?_
    rintro rfl
    rw [List.length_nil] at hlength
    omega

/-- A number with an exponent. -/
theorem exists_spells_exponent (hpos : 0 < x.digits)
    (hlead : ¬(f.fractionLimit ≤ leadingExponent x.digits x.exponent ∧
      leadingExponent x.digits x.exponent ≤ f.wholeLimit))
    (hspelt : x.spelt f = x) :
    ∃ whole fraction mark exponent, Spells f x whole fraction mark exponent := by
  set lead := leadingExponent x.digits x.exponent with hleadEq
  set mark := if 0 ≤ lead then ['e', '+'] else ['e'] with hmark
  obtain ⟨d, ds, hdigits, hnumeral, hwrite⟩ := Text.exists_scientific hpos mark x.exponent
  refine ⟨[d], ds, mark ++ ofInt lead, some lead, ⟨hnumeral, ?_, ?_, ?_, ?_, ?_⟩⟩
  · rw [hmark]
    split
    · next hle =>
      obtain ⟨n, hn⟩ := Int.eq_ofNat_of_zero_le hle
      rw [hn]
      exact .plus n
    · exact .signed lead
  · have hnot : ¬(x.digits = 0 ∨ f.fractionLimit ≤ lead ∧ lead ≤ f.wholeLimit) := by
      rintro (hzero | hin)
      · omega
      · exact hlead hin
    rw [write_interchange, if_neg hnot, hwrite, List.append_assoc]
  · rw [hspelt, List.singleton_append, ← hdigits, Text.ofDigits_digits]
  · have hlength := congrArg List.length hdigits
    rw [hspelt, Option.getD_some, hleadEq, leadingExponent, hlength, List.length_cons]
    omega
  · exact Or.inr nofun

theorem exists_spells (f : Format) {x : Figures} (h : x.Few) :
    ∃ whole fraction mark exponent, Spells f x whole fraction mark exponent := by
  by_cases hwhole : 0 ≤ x.exponent ∧ leadingExponent x.digits x.exponent ≤ f.wholeLimit
  · exact ⟨_, _, _, _, spells_whole hwhole.1 hwhole.2⟩
  · have hlast : x.digits % 10 ≠ 0 := by
      refine h.last.resolve_right ?_
      rintro rfl
      refine hwhole ⟨le_rfl, ?_⟩
      rw [leadingExponent, Text.digits_of_lt (by decide)]
      cases f <;> decide
    by_cases hlead : f.fractionLimit ≤ leadingExponent x.digits x.exponent ∧
        leadingExponent x.digits x.exponent ≤ f.wholeLimit
    · have he : x.exponent < 0 := by
        by_contra he
        exact hwhole ⟨not_lt.mp he, hlead.2⟩
      obtain ⟨whole, fraction, hspells⟩ := exists_spells_fraction hlast he hlead
      exact ⟨_, _, _, _, hspells⟩
    · exact exists_spells_exponent (by omega) hlead (if_neg hwhole)

end Figures

/-! ## Floats -/

namespace Binary

variable {f : Format}

/-- The figures of a finite float as they are written for interchange. -/
def written (x : Binary f) : Figures :=
  (x.figures .toEven).spelt f

theorem few_figures (tie : Tie) {x : Binary f} (hx : x.isFinite = true) : (x.figures tie).Few := by
  unfold figures
  by_cases hzero : x.isZero = true
  · rw [if_pos hzero]
    exact ⟨Or.inr rfl, by decide⟩
  · have hpos : 0 < x.magnitude := by
      simpa [isZero, Nat.pos_iff_ne_zero] using hzero
    obtain ⟨hlast, hlt, -⟩ := Format.shortest_spec tie hpos (magnitude_lt_of_isFinite hx)
    rw [if_neg hzero]
    exact ⟨Or.inl hlast, hlt⟩

/-- What a finite float is read as: its figures are rounded to a double, and again with their power
of ten. -/
theorem readParts?_text {x : Binary f} (hx : x.isFinite = true) {rest : List Char}
    (hrest : Ends rest) :
    ∃ p, readParts? (x.text (.interchange f) ++ rest) = some (p, rest) ∧
      p.toNumber? = ((scaleByTen (.ofInt x.written.digits) x.written.exponent).map fun y =>
        if x.negative then y.neg else y).map .real := by
  have hfew := few_figures .toEven hx
  obtain ⟨whole, fraction, mark, exponent, h⟩ := Figures.exists_spells f hfew
  refine ⟨⟨x.negative, whole, fraction, exponent⟩, ?_, ?_⟩
  · have htie : (Layout.interchange f).tie = .toEven := by cases f <;> rfl
    rw [text, if_pos hx, htie, h.write_eq]
    exact readParts?_append x.negative h.numeral h.isExponent hrest
  · have hlt : ofDigits (whole ++ fraction) < 2 ^ 64 := by
      rw [h.digits_eq]
      exact (hfew.spelt_lt f).trans (by decide)
    have hreal : Parts.isInteger ⟨x.negative, whole, fraction, exponent⟩ = false := by
      unfold Parts.isInteger
      rcases h.not_integer with hfraction | hexponent
      · simp [hfraction]
      · simp [hexponent]
    rw [Parts.toNumber?, hreal, if_neg Bool.false_ne_true, toReal?_eq _ _ hlt, h.digits_eq,
      h.exponent_eq]
    rfl

end Binary

end RowCode
