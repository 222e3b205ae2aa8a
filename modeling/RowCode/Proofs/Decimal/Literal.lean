import Mathlib.Data.List.TakeDrop
import Mathlib.Data.List.TakeWhile
import RowCode.Decimal.Literal
import RowCode.Proofs.Decimal.Value
import RowCode.Proofs.Text.Plain

/-!
# What a literal leaves behind

How a decimal literal without exponent is read: the digits before and behind its
point together give the integer, and those behind it are counted
(`readPair?_pointed`). An integer is a decimal with nothing behind the point.

The bound on powers of ten is checked on the normal form, while the pair is kept
as it is read. For numbers other than zero the two differ by trailing zeros, of
which a text has no more than characters, so the scale of what is kept is bounded
too. The normal form of zero says nothing about the pair: a zero is accepted and
kept with any scale that fits 64 bits (`scale_of_parse`).
-/

namespace RowCode.Decimal

open Text

/-! ## Literals without exponent -/

/-- Without underscores, the digits of a mantissa are those of an integer. -/
theorem readUnscaled?_eq {s : List Char} (h : ∀ c ∈ s, isFigure c = true) :
    readUnscaled? s = readInt? s := by
  have hfigures : ∀ c ∈ (splitSign s).2, c ≠ '_' := by
    intro c hc
    exact ne_of_isFigure (h c (mem_of_mem_splitSign hc)) (by decide)
  have hhead : (splitSign s).2.head? ≠ some '_' := fun hsome =>
    hfigures '_' (List.mem_of_mem_head? hsome) rfl
  have hfilter : (splitSign s).2.filter (· ≠ '_') = (splitSign s).2 :=
    List.filter_eq_self.mpr fun c hc => by simpa using hfigures c hc
  unfold readUnscaled? readInt? readGrouped?
  simp only [hfilter, if_neg hhead]

theorem span_eq_self {p : Char → Bool} {s : List Char} (h : ∀ c ∈ s, p c = true) :
    s.span p = (s, []) := by
  have htake : s.takeWhile p = s := List.takeWhile_eq_self_iff.mpr h
  rw [List.span_eq_takeWhile_dropWhile, htake, List.dropWhile_eq_nil_iff.mpr h]

/-- The point is taken out, and what was behind it is counted. -/
theorem splitPoint_pointed {lead trail : List Char} (h : ∀ c ∈ lead ++ trail, isFigure c = true) :
    splitPoint (pointed lead trail) = (lead ++ trail, trail.length) := by
  have hlead : ∀ c ∈ lead, (c ≠ '.' : Bool) = true := fun c hc => by
    simpa using ne_of_isFigure (h c (List.mem_append_left _ hc)) (by decide : isFigure '.' = false)
  have htrail : trail.filter (· ≠ '_') = trail := List.filter_eq_self.mpr fun c hc => by
    simpa using ne_of_isFigure (h c (List.mem_append_right _ hc)) (by decide : isFigure '_' = false)
  by_cases hnil : trail = []
  · rw [splitPoint, pointed, if_pos hnil, span_eq_self hlead, hnil]
    simp
  · have hspan : (lead ++ '.' :: trail).span (· ≠ '.') = (lead, '.' :: trail) := by
      rw [List.span_eq_takeWhile_dropWhile, List.takeWhile_append_of_pos hlead,
        List.dropWhile_append_of_pos hlead]
      simp
    rw [splitPoint, pointed, if_neg hnil, hspan]
    exact congrArg (fun t => (lead ++ trail, List.length t)) htrail

/-- The parts of a literal are read one by one. -/
theorem readPair?_of_span {s mantissa power : List Char}
    (h : s.span (fun c => c ≠ 'e' ∧ c ≠ 'E') = (mantissa, power)) :
    readPair? s = (readPower? power).bind fun p =>
      (readUnscaled? (splitPoint mantissa).1).bind fun n =>
        if isScale ((splitPoint mantissa).2 - p) then some ⟨n, (splitPoint mantissa).2 - p⟩
        else none := by
  rw [readPair?, h]
  rfl

theorem readPair?_pointed {lead trail : List Char} (h : ∀ c ∈ lead ++ trail, isFigure c = true) :
    readPair? (pointed lead trail) =
      (readInt? (lead ++ trail)).bind fun n =>
        if isScale trail.length then some ⟨n, trail.length⟩ else none := by
  have hmantissa : ∀ c ∈ pointed lead trail, (decide (c ≠ 'e' ∧ c ≠ 'E')) = true := by
    intro c hc
    rcases mem_pointed hc with rfl | hmem
    · decide
    · have he : c ≠ 'e' := ne_of_isFigure (h c hmem) (by decide)
      have hE : c ≠ 'E' := ne_of_isFigure (h c hmem) (by decide)
      simp [he, hE]
  have hzero : readPower? [] = some 0 := rfl
  rw [readPair?_of_span (span_eq_self hmantissa), hzero, Option.bind_some, splitPoint_pointed h,
    readUnscaled?_eq h, Int.sub_zero]

/-- An integer is read as a decimal with nothing behind the point. -/
theorem readPair?_of_readInt? {s : List Char} {n : Int} (h : readInt? s = some n) :
    readPair? s = some (ofInt n) := by
  have hfigures : ∀ c ∈ s ++ [], isFigure c = true := by
    rw [List.append_nil]
    exact isFigure_of_readInt? h
  have hread := readPair?_pointed hfigures
  rw [List.append_nil, h, pointed, if_pos rfl] at hread
  exact hread

/-! ## The scale of a literal -/

theorem length_splitSign_le (s : List Char) : (splitSign s).2.length ≤ s.length := by
  unfold splitSign
  split <;> simp

theorem length_splitPoint_le (s : List Char) : (splitPoint s).1.length ≤ s.length := by
  have happend := congrArg List.length (List.takeWhile_append_dropWhile (p := (· ≠ '.')) (l := s))
  rw [splitPoint, List.span_eq_takeWhile_dropWhile]
  simp only [List.length_append, List.length_drop] at *
  omega

theorem lt_of_readGrouped? {s : List Char} {n : Nat} (h : readGrouped? s = some n) :
    n < 10 ^ s.length := by
  have hpow := Nat.pow_le_pow_right (by decide : 0 < 10) (List.length_filter_le (· ≠ '_') s)
  rw [readGrouped?, readNat?] at h
  split at h
  · cases h
  · split at h
    · next hdigits =>
      cases h
      exact Nat.lt_of_lt_of_le (ofDigits_lt hdigits.2) hpow
    · cases h

/-- A number has no more digits than its text has characters. -/
theorem natAbs_lt_of_readUnscaled? {s : List Char} {n : Int} (h : readUnscaled? s = some n) :
    n.natAbs < 10 ^ s.length := by
  have hpow := Nat.pow_le_pow_right (by decide : 0 < 10) (length_splitSign_le s)
  unfold readUnscaled? at h
  cases hm : readGrouped? (splitSign s).2 with
  | none => simp [hm] at h
  | some m =>
      have habs : n.natAbs = m := by
        simp only [hm, Option.bind_eq_bind, Option.bind_some, Option.pure_def, Option.map_some,
          Option.some.injEq] at h
        rw [← h]
        split <;> simp
      rw [habs]
      exact Nat.lt_of_lt_of_le (lt_of_readGrouped? hm) hpow

/-- What is kept of a literal. -/
theorem natAbs_lt_of_readPair? {s : List Char} {d : Decimal} (h : readPair? s = some d) :
    d.unscaled.natAbs < 10 ^ s.length ∧ isScale d.scale = true := by
  obtain ⟨mantissa, power, hspan⟩ : ∃ mantissa power,
      s.span (fun c => c ≠ 'e' ∧ c ≠ 'E') = (mantissa, power) := ⟨_, _, rfl⟩
  have hmantissa : mantissa.length ≤ s.length := by
    rw [List.span_eq_takeWhile_dropWhile] at hspan
    obtain ⟨rfl, -⟩ := Prod.mk.inj hspan
    exact (List.takeWhile_prefix _).length_le
  rw [readPair?_of_span hspan] at h
  obtain ⟨p, -, h⟩ := Option.bind_eq_some_iff.mp h
  obtain ⟨n, hn, h⟩ := Option.bind_eq_some_iff.mp h
  split at h
  · next hscale =>
    cases h
    refine ⟨Nat.lt_of_lt_of_le (natAbs_lt_of_readUnscaled? hn) ?_, hscale⟩
    exact Nat.pow_le_pow_right (by decide) (Nat.le_trans (length_splitPoint_le mantissa) hmantissa)
  · cases h

/-- A number has the digits that a power of ten beyond its own takes. -/
theorem pow_le_natAbs_of_isMultiple {d : Decimal} (hd : d.value ≠ 0) {e : Int} (he : -d.scale ≤ e)
    (h : IsMultiple d.value e) : 10 ^ (e + d.scale).toNat ≤ d.unscaled.natAbs := by
  obtain ⟨k, hk⟩ := h
  rw [value, ten_zpow_of_le he, ← mul_assoc, mul_left_inj' (ten_zpow_ne_zero _)] at hk
  have hint : d.unscaled = k * 10 ^ (e + d.scale).toNat := by
    rw [← Int.sub_neg]
    exact_mod_cast hk
  have hk0 : k ≠ 0 := by
    rintro rfl
    exact hd (value_eq_zero_iff.mpr (by rw [hint, Int.zero_mul]))
  have habs : d.unscaled.natAbs = k.natAbs * 10 ^ (e + d.scale).toNat := by
    rw [hint, Int.natAbs_mul, Int.natAbs_pow]
    rfl
  rw [habs]
  exact Nat.le_mul_of_pos_left _ (Int.natAbs_pos.mpr hk0)

/-- The trailing zeros of a number are among its digits. So a bound on its power
of ten is, but for the digits, one on its scale. -/
theorem scale_bounds {d : Decimal} {digits : Nat} (hd : d.value ≠ 0)
    (hdigits : d.unscaled.natAbs < 10 ^ digits) :
    -d.exponent ≤ d.scale ∧ d.scale ≤ -d.exponent + digits := by
  have hlow : -d.scale ≤ d.exponent := (isMultiple_value_iff hd).mp ⟨d.unscaled, rfl⟩
  have hmultiple : IsMultiple d.value d.exponent := (isMultiple_value_iff hd).mpr (Int.le_refl _)
  have hpow := Nat.lt_of_le_of_lt (pow_le_natAbs_of_isMultiple hd hlow hmultiple) hdigits
  have hlt : (d.exponent + d.scale).toNat < digits :=
    (Nat.pow_lt_pow_iff_right (by decide : 1 < 10)).mp hpow
  omega

/-! ## Accepted literals -/

theorem parse_eq_ok_iff {s : String} {d : Decimal} :
    parse s = .ok d ↔ readPair? (stripped s) = some d ∧ d.isBounded = true := by
  rw [parse]
  cases hread : readPair? (stripped s) with
  | none => simp
  | some d' =>
      simp only [bounded, Option.some.injEq]
      by_cases hd : d'.isBounded = true
      · rw [if_pos hd, Except.ok.injEq]
        exact ⟨fun h => ⟨h, h ▸ hd⟩, fun h => h.1⟩
      · rw [if_neg hd]
        exact iff_of_false (fun h => nomatch h) fun h => hd (h.1 ▸ h.2)

/-- Zero with a scale of its own. -/
def zeroLiteral (scale : Int) : List Char :=
  '0' :: 'E' :: Text.ofInt (-scale)

theorem readPair?_zeroLiteral {scale : Int} (h : isScale scale = true) :
    readPair? (zeroLiteral scale) = some ⟨0, scale⟩ := by
  have hspan : (zeroLiteral scale).span (fun c => c ≠ 'e' ∧ c ≠ 'E') =
      (['0'], 'E' :: Text.ofInt (-scale)) := rfl
  have hpower : readPower? ('E' :: Text.ofInt (-scale)) = some (-scale) := readInt?_ofInt _
  have hzero : readUnscaled? (splitPoint ['0']).1 = some 0 := by decide
  have hscale : ((splitPoint ['0']).2 : Int) - -scale = scale := by
    rw [show (splitPoint ['0']).2 = 0 by decide]
    omega
  rw [readPair?_of_span hspan, hpower, Option.bind_some, hzero,
    Option.bind_some, hscale, if_pos h]

theorem parse_zeroLiteral {scale : Int} (h : isScale scale = true) :
    parse (String.ofList (zeroLiteral scale)) = .ok ⟨0, scale⟩ := by
  have hspace : ∀ c ∈ zeroLiteral scale, isSpace c = false := by
    intro c hc
    simp only [zeroLiteral, List.mem_cons] at hc
    rcases hc with rfl | rfl | hc
    · decide
    · decide
    · exact isSpace_of_isFigure (isFigure_of_readInt? (readInt?_ofInt _) c hc)
  rw [parse_eq_ok_iff, stripped_ofList hspace]
  exact ⟨readPair?_zeroLiteral h, isBounded_iff.mpr (.inl (value_zero scale))⟩

/-- The scale that an accepted literal is kept with. For all numbers but zero it
is bounded by the greatest power of ten and the length of the text. For zero it
is not: any scale there is can be had. -/
theorem scale_of_parse (d : Decimal) :
    (d.isZero = false → ∀ s : String, parse s = .ok d →
      -maxExponent ≤ d.scale ∧ d.scale ≤ maxExponent + s.length) ∧
    (d.isZero = true → ((∃ s, parse s = .ok d) ↔ isScale d.scale = true)) := by
  refine ⟨fun hd s h => ?_, fun hd => ⟨fun ⟨s, h⟩ => ?_, fun h => ?_⟩⟩
  · obtain ⟨hread, hbound⟩ := parse_eq_ok_iff.mp h
    have hvalue : d.value ≠ 0 := fun hzero => by
      simp [isZero, value_eq_zero_iff.mp hzero] at hd
    have hscale := scale_bounds hvalue (natAbs_lt_of_readPair? hread).1
    have hlength : (stripped s).length ≤ s.length := length_trim_le _ _
    rw [isBounded, decide_eq_true_iff] at hbound
    omega
  · exact (natAbs_lt_of_readPair? (parse_eq_ok_iff.mp h).1).2
  · have hzero : d = ⟨0, d.scale⟩ := by
      rw [← value_eq_zero_iff.mp (value_of_isZero hd)]
    rw [hzero]
    exact ⟨_, parse_zeroLiteral h⟩

/-- The digits do count: the first scale is beyond the bound on powers of ten. A
zero has one far beyond it. -/
theorem scale_of_parse_padded :
    parse "0.1000E-4095" = .ok ⟨1000, 4099⟩ ∧
      (-(maxExponent : Int) ≤ 4099 ∧ (4099 : Int) ≤ maxExponent + "0.1000E-4095".length) ∧
      ∃ s, parse s = .ok ⟨0, 2 ^ 62⟩ := by
  have hparse : parse "0.1000E-4095" = .ok ⟨1000, 4099⟩ := by
    rw [parse_eq_ok_iff]
    exact ⟨by decide, by simp [isBounded, exponent, normal, strip, maxExponent]⟩
  exact ⟨hparse, (scale_of_parse ⟨1000, 4099⟩).1 rfl _ hparse,
    ((scale_of_parse ⟨0, 2 ^ 62⟩).2 rfl).mpr (by decide)⟩

/-- A zero is accepted with a power of ten at which other numbers overflow. -/
theorem zero_scale_unbounded :
    parse "1E5000" = .error .unbounded ∧ parse "0E5000" = .ok ⟨0, -5000⟩ ∧
      ¬(-(maxExponent : Int) ≤ -5000 ∧ (-5000 : Int) ≤ maxExponent + "0E5000".length) := by
  refine ⟨?_, parse_eq_ok_iff.mpr ⟨by decide, by decide⟩, by rw [maxExponent]; decide⟩
  have hread : readPair? (stripped "1E5000") = some ⟨1, -5000⟩ := by decide
  rw [parse, hread]
  simp [bounded, isBounded, exponent, normal, strip, maxExponent]

end RowCode.Decimal
