import RowCode.Decimal.Text
import RowCode.Fault
import RowCode.Proofs.Decimal.Literal

/-!
# Texts of decimals, read again

The text of a decimal is written from its normal form, and values have one normal
form each (`normal_eq_iff`). So decimals of one value look the same. For the
converse the text is read: its digits are those of the normal form, written with
as many places as there are behind the point and no fewer than none (`plain`).
That is another pair, but of the same value, so different values cannot look the
same, and the bound on powers of ten refuses exactly what it would refuse of the
decimal itself.
-/

namespace RowCode.Decimal

open Text

/-! ## Normal forms -/

/-- The normal form has no trailing zero to take out, unless it is that of zero. -/
theorem normal_emod_or_eq_zero (d : Decimal) : d.normal.unscaled % 10 ≠ 0 ∨ d.normal = zero := by
  unfold normal
  split
  · exact Or.inr rfl
  · next hn => exact Or.inl (strip_unscaled_emod hn d.scale)

theorem eq_of_unscaled_eq {a b : Decimal} (hunscaled : a.unscaled = b.unscaled)
    (hscale : a.scale = b.scale) : a = b := by
  cases a
  cases b
  exact congrArg₂ Decimal.mk hunscaled hscale

/-- There is one normal form for each value. -/
theorem normal_eq_iff {a b : Decimal} : a.normal = b.normal ↔ a.value = b.value := by
  constructor
  · intro h
    rw [← value_normal a, ← value_normal b, h]
  · intro h
    by_cases hb : b.value = 0
    · have ha : a.value = 0 := h.trans hb
      rw [normal, normal, if_pos (value_eq_zero_iff.mp ha), if_pos (value_eq_zero_iff.mp hb)]
    · have ha : a.value ≠ 0 := fun hzero => hb (h ▸ hzero)
      have hab : a.exponent ≤ b.exponent := by
        rw [← isMultiple_value_iff hb, ← h, isMultiple_value_iff ha]
      have hba : b.exponent ≤ a.exponent := by
        rw [← isMultiple_value_iff ha, h, isMultiple_value_iff hb]
      have hscale : a.normal.scale = b.normal.scale := Int.neg_inj.mp (Int.le_antisymm hab hba)
      have hvalue : a.normal.value = b.normal.value := by rw [value_normal, value_normal, h]
      rw [value, value, hscale, mul_left_inj' (ten_zpow_ne_zero _), Int.cast_inj] at hvalue
      exact eq_of_unscaled_eq hvalue hscale

theorem isBounded_congr {a b : Decimal} (h : a.value = b.value) : a.isBounded = b.isBounded := by
  unfold isBounded exponent
  rw [normal_eq_iff.mpr h]

theorem scale_strip_le (n scale : Int) : (strip n scale).scale ≤ scale := by
  induction n, scale using strip.induct with
  | case1 n scale h ih =>
      rw [strip, if_pos h]
      omega
  | case2 n scale h => rw [strip, if_neg h]

theorem scale_normal_le (d : Decimal) : d.normal.scale ≤ max 0 d.scale := by
  unfold normal
  split
  · exact Int.le_max_left 0 d.scale
  · exact Int.le_trans (scale_strip_le d.unscaled d.scale) (Int.le_max_right 0 d.scale)

/-! ## Reading a text -/

/-- The pair that the text of a decimal shows: the zeros before the point are
digits again, and so are no part of the scale. -/
def plain (d : Decimal) : Decimal :=
  d.normal.rescale (max 0 d.normal.scale)

theorem value_plain (d : Decimal) : d.plain.value = d.value := by
  rw [plain, value_rescale (Int.le_max_right 0 _), value_normal]

theorem scale_plain (d : Decimal) : d.plain.scale = max 0 d.normal.scale := by
  unfold plain rescale
  split <;> rfl

theorem unscaled_plain (d : Decimal) :
    d.plain.unscaled = d.normal.unscaled * 10 ^ (-d.normal.scale).toNat := by
  unfold plain rescale
  split
  · next hzero => simp [hzero]
  · rw [show (max 0 d.normal.scale - d.normal.scale).toNat = (-d.normal.scale).toNat by omega]

/-- The digits of a text and its sign. -/
theorem exists_writes_normal (d : Decimal) :
    ∃ whole fraction, Writes d.normal.unscaled.natAbs (-d.normal.scale) whole fraction := by
  apply exists_writes
  rcases normal_emod_or_eq_zero d with hmod | hzero
  · exact Or.inl (by omega)
  · exact Or.inr (by simp [hzero, zero])

theorem isPlain_text (d : Decimal) :
    ∃ negative whole fraction, IsPlain d.text negative whole fraction := by
  obtain ⟨whole, fraction, h⟩ := exists_writes_normal d
  refine ⟨d.normal.negative, whole, fraction, h.isPlain fun hneg hzero => ?_⟩
  rw [negative, decide_eq_true_iff] at hneg
  omega

/-- What is read before and behind the point. -/
theorem exists_figures (d : Decimal) :
    ∃ lead trail, d.text = pointed lead trail ∧ readInt? (lead ++ trail) = some d.plain.unscaled ∧
      (trail.length : Int) = d.plain.scale := by
  obtain ⟨whole, fraction, h⟩ := exists_writes_normal d
  refine ⟨signed d.normal.negative whole, fraction, ?_, ?_, ?_⟩
  · rw [text, h.positional_eq, signed_pointed]
  · have hsigned : signed d.normal.negative whole ++ fraction =
        signed d.normal.negative (whole ++ fraction) := by
      cases d.normal.negative <;> rfl
    have hdigits : (whole ++ fraction).all isDigit = true := by
      rw [List.all_append, h.whole_digits, h.fraction_digits]
      rfl
    rw [hsigned, readInt?_signed _ (by simp [h.ne_nil]) hdigits, h.value, unscaled_plain, negative]
    simp only [decide_eq_true_eq]
    push_cast
    split
    · next hneg => rw [abs_of_neg hneg, neg_mul, neg_neg]
    · next hpos => rw [abs_of_nonneg (Int.not_lt.mp hpos)]
  · rw [h.length, scale_plain]
    omega

/-- A text tells what was read from it. -/
theorem plain_of_text_eq {a b : Decimal} (h : a.text = b.text) : a.plain = b.plain := by
  obtain ⟨lead, trail, ha, hread, hlength⟩ := exists_figures a
  obtain ⟨lead', trail', hb, hread', hlength'⟩ := exists_figures b
  have hsplit := splitPoint_pointed (isFigure_of_readInt? hread)
  rw [← ha, h, hb, splitPoint_pointed (isFigure_of_readInt? hread'), Prod.mk.injEq] at hsplit
  rw [← hsplit.1, hread', Option.some.injEq] at hread
  rw [← hsplit.2, hlength'] at hlength
  exact eq_of_unscaled_eq hread.symm hlength.symm

theorem readPair?_text (d : Decimal) :
    readPair? d.text = if isScale d.plain.scale then some d.plain else none := by
  obtain ⟨lead, trail, htext, hread, hlength⟩ := exists_figures d
  rw [htext, readPair?_pointed (isFigure_of_readInt? hread), hread, Option.bind_some, hlength]

theorem stripped_text (d : Decimal) : stripped (String.ofList d.text) = d.text := by
  apply stripped_ofList
  obtain ⟨lead, trail, htext, hread, -⟩ := exists_figures d
  intro c hc
  rw [htext] at hc
  rcases mem_pointed hc with rfl | hmem
  · decide
  · exact isSpace_of_isFigure (isFigure_of_readInt? hread c hmem)

theorem parse_text {d : Decimal} (h : isScale d.plain.scale = true) :
    parse (String.ofList d.text) = bounded d.plain := by
  rw [parse, stripped_text, readPair?_text, if_pos h]

/-- The scale that a text shows is in range if that of the decimal is. -/
theorem isScale_plain {d : Decimal} (h : isScale d.scale = true) :
    isScale d.plain.scale = true := by
  have hle := scale_normal_le d
  rw [isScale, Bool.and_eq_true, decide_eq_true_iff, decide_eq_true_iff] at h ⊢
  rw [scale_plain]
  omega

theorem isScale_plain_of_isBounded {d : Decimal} (h : d.isBounded = true) :
    isScale d.plain.scale = true := by
  rw [isBounded, decide_eq_true_iff, exponent, maxExponent] at h
  rw [isScale, Bool.and_eq_true, decide_eq_true_iff, decide_eq_true_iff, scale_plain]
  omega

theorem readDecimal_text {d : Decimal} (h : d.isBounded = true) :
    readDecimal (String.ofList d.text) = .ok d.plain := by
  rw [readDecimal, parse_text (isScale_plain_of_isBounded h), bounded,
    isBounded_congr (value_plain d), if_pos h]
  rfl

/-- Texts of decimals. Decimals look equal exactly if they have one value, and
what they look like is in plain notation. A text is read back with the value of
the decimal if its power of ten is within bounds, and overflows if not. -/
theorem text_canonical (a b : Decimal) :
    (a.text = b.text ↔ a.value = b.value) ∧
    (∃ negative whole fraction, IsPlain a.text negative whole fraction) ∧
    (a.exponent.natAbs ≤ maxExponent →
      ∃ d, readDecimal (String.ofList a.text) = .ok d ∧ d.value = a.value) ∧
    (maxExponent < a.exponent.natAbs → isScale a.scale = true →
      readDecimal (String.ofList a.text) = .error (.overflow .decimal)) := by
  refine ⟨⟨fun h => ?_, fun h => ?_⟩, isPlain_text a, fun h => ?_, fun h hscale => ?_⟩
  · rw [← value_plain a, plain_of_text_eq h, value_plain]
  · rw [text, text, normal_eq_iff.mpr h]
  · exact ⟨a.plain, readDecimal_text (decide_eq_true h), value_plain a⟩
  · have hbound : ¬a.isBounded = true := by
      rw [isBounded, decide_eq_true_iff]
      omega
    rw [readDecimal, parse_text (isScale_plain hscale), bounded, isBounded_congr (value_plain a),
      if_neg hbound]
    rfl

/-- On either side of the bound. -/
theorem text_canonical_read :
    (exponent ⟨-1500, 3⟩).natAbs ≤ maxExponent ∧
      (∃ d, readDecimal (String.ofList (text ⟨-1500, 3⟩)) = .ok d ∧ d.value = value ⟨-1500, 3⟩) ∧
      maxExponent < (exponent ⟨1, -5000⟩).natAbs ∧ isScale (-5000) = true ∧
      readDecimal (String.ofList (text ⟨1, -5000⟩)) = .error (.overflow .decimal) := by
  have hlow : (exponent ⟨-1500, 3⟩).natAbs ≤ maxExponent := by
    simp [exponent, normal, strip, maxExponent]
  have hhigh : maxExponent < (exponent ⟨1, -5000⟩).natAbs := by
    simp [exponent, normal, strip, maxExponent]
  have hscale : isScale (-5000) = true := by decide
  exact ⟨hlow, (text_canonical ⟨-1500, 3⟩ zero).2.2.1 hlow, hhigh, hscale,
    (text_canonical ⟨1, -5000⟩ zero).2.2.2 hhigh hscale⟩

end RowCode.Decimal
