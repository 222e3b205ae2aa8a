import RowCode.Proofs.Text.Digits

/-!
# Plain notation

Plain notation writes a number as digits before and behind a point, with none
that could be left out: no zero stands in front but a single one, none at the
end of the fraction, and no point without a fraction (`IsMinimal`). This is what
`positional` writes for a number whose own trailing zeros are in the exponent
(`exists_writes`), and the digits give the number back (`Writes.value`). Other
numbers keep their trailing zeros (`Places`).
-/

namespace RowCode.Text

/-- Digits before and behind a point, which is left out with nothing behind it. -/
def pointed (whole fraction : List Char) : List Char :=
  if fraction = [] then whole else whole ++ '.' :: fraction

theorem mem_pointed {lead trail : List Char} {c : Char} (h : c ∈ pointed lead trail) :
    c = '.' ∨ c ∈ lead ++ trail := by
  unfold pointed at h
  split at h
  · exact Or.inr (List.mem_append_left _ h)
  · simp only [List.mem_append, List.mem_cons] at h ⊢
    exact or_left_comm.mp h

theorem signed_pointed (negative : Bool) (whole fraction : List Char) :
    signed negative (pointed whole fraction) = pointed (signed negative whole) fraction := by
  by_cases h : fraction = []
  · simp [pointed, h]
  · cases negative <;> simp [signed, pointed, h]

/-- Digits before and behind a point, with no zero in front that could be left out. -/
structure IsNumeral (whole fraction : List Char) : Prop where
  ne_nil : whole ≠ []
  whole_digits : whole.all isDigit = true
  fraction_digits : fraction.all isDigit = true
  lead : whole.head? = some '0' → whole = ['0']

theorem IsNumeral.all_digits {whole fraction : List Char} (h : IsNumeral whole fraction) :
    (whole ++ fraction).all isDigit = true := by
  rw [List.all_append, h.whole_digits, h.fraction_digits]
  rfl

theorem isNumeral_digits (n : Nat) {fraction : List Char} (h : fraction.all isDigit = true) :
    IsNumeral (digits n) fraction where
  ne_nil := digits_ne_nil n
  whole_digits := all_isDigit_digits n
  fraction_digits := h
  lead hlead := by
    rcases Nat.eq_zero_or_pos n with rfl | hpos
    · exact digits_of_lt (by decide)
    · exact absurd hlead (head?_digits hpos)

/-- Digits of which none could be left out. -/
structure IsMinimal (whole fraction : List Char) : Prop where
  ne_nil : whole ≠ []
  whole_digits : whole.all isDigit = true
  fraction_digits : fraction.all isDigit = true
  lead : whole.head? = some '0' → whole = ['0']
  last : fraction.getLast? ≠ some '0'

theorem IsMinimal.isNumeral {whole fraction : List Char} (h : IsMinimal whole fraction) :
    IsNumeral whole fraction :=
  ⟨h.ne_nil, h.whole_digits, h.fraction_digits, h.lead⟩

/-- A signed number in plain notation. Zero has no sign. -/
structure IsPlain (s : List Char) (negative : Bool) (whole fraction : List Char) : Prop extends
    IsMinimal whole fraction where
  eq : s = signed negative (pointed whole fraction)
  unsigned_zero : negative = true → pointed whole fraction ≠ ['0']

/-- The digits of `n * 10 ^ e` before and behind the point. -/
structure Writes (n : Nat) (e : Int) (whole fraction : List Char) : Prop extends
    IsMinimal whole fraction where
  positional_eq : positional n e = pointed whole fraction
  length : fraction.length = (-e).toNat
  value : ofDigits (whole ++ fraction) = n * 10 ^ e.toNat

/-- With no digits behind the point, the digits are those of the number. -/
theorem positional_of_nonneg (n : Nat) {e : Int} (he : 0 ≤ e) :
    positional n e = digits (n * 10 ^ e.toNat) := by
  by_cases hn : n = 0
  · rw [hn, positional, if_pos rfl, Nat.zero_mul, digits_of_lt (by decide)]
    rfl
  · rw [positional, if_neg hn, if_pos he, digits_mul_pow (Nat.pos_of_ne_zero hn)]

/-- All digits before the point. -/
theorem writes_digits {n : Nat} (hn : 0 < n) {e : Int} (he : 0 ≤ e) :
    Writes n e (digits (n * 10 ^ e.toNat)) [] := by
  have hpos : 0 < n * 10 ^ e.toNat := Nat.mul_pos hn (Nat.pow_pos (by decide))
  refine ⟨⟨digits_ne_nil _, all_isDigit_digits _, rfl, fun h => absurd h (head?_digits hpos), ?_⟩,
    ?_, ?_, ?_⟩
  · simp
  · rw [positional_of_nonneg n he, pointed, if_pos rfl]
  · simp only [List.length_nil]
    omega
  · rw [List.append_nil, ofDigits_digits]

/-! ## The point among the digits -/

/-- The digits of `n * 10 ^ e` before and behind the point, where there are some
behind it. Trailing zeros of `n` are kept. -/
structure Places (n : Nat) (e : Int) (whole fraction : List Char) : Prop extends
    IsNumeral whole fraction where
  positional_eq : positional n e = pointed whole fraction
  length : fraction.length = (-e).toNat
  value : ofDigits (whole ++ fraction) = n
  last : fraction.getLast? = some (digitChar (n % 10))

/-- The point among the digits. -/
theorem places_split {n : Nat} (hn : 0 < n) {e : Int} (he : e < 0)
    (hfew : (-e).toNat < (digits n).length) :
    Places n e ((digits n).take ((digits n).length - (-e).toNat))
      ((digits n).drop ((digits n).length - (-e).toNat)) := by
  have hall := all_isDigit_digits n
  rw [List.all_eq_true] at hall
  refine ⟨⟨?_, ?_, ?_, fun h => ?_⟩, ?_, ?_, ?_, ?_⟩
  · simp only [ne_eq, List.take_eq_nil_iff, digits_ne_nil, or_false]
    omega
  · exact List.all_eq_true.mpr fun c hc => hall c (List.mem_of_mem_take hc)
  · exact List.all_eq_true.mpr fun c hc => hall c (List.mem_of_mem_drop hc)
  · rw [List.head?_take, if_neg (by omega)] at h
    exact absurd h (head?_digits hn)
  · have hdrop : (digits n).drop ((digits n).length - (-e).toNat) ≠ [] := by
      simp only [ne_eq, List.drop_eq_nil_iff]
      omega
    rw [positional, if_neg (Nat.ne_of_gt hn), if_neg (by omega), pointed, if_neg hdrop]
    exact if_pos hfew
  · rw [List.length_drop]
    omega
  · rw [List.take_append_drop, ofDigits_digits]
  · rw [List.getLast?_drop, if_neg (by omega)]
    exact getLast?_digits n

/-- The point before all digits, and zeros behind it. -/
theorem places_padded {n : Nat} (hn : 0 < n) {e : Int} (he : e < 0)
    (hmany : (digits n).length ≤ (-e).toNat) :
    Places n e ['0'] (zeros ((-e).toNat - (digits n).length) ++ digits n) := by
  have hzeros : (zeros ((-e).toNat - (digits n).length)).all isDigit = true := by
    simp [zeros, isDigit]
  refine ⟨⟨by simp, by decide, ?_, fun _ => rfl⟩, ?_, ?_, ?_, ?_⟩
  · rw [List.all_append, hzeros, all_isDigit_digits]
    rfl
  · have hne : zeros ((-e).toNat - (digits n).length) ++ digits n ≠ [] := by
      simp [digits_ne_nil]
    rw [positional, if_neg (Nat.ne_of_gt hn), if_neg (by omega), pointed, if_neg hne]
    exact if_neg (Nat.not_lt.mpr hmany)
  · rw [List.length_append, zeros, List.length_replicate]
    omega
  · rw [← List.append_assoc, ofDigits_append, ofDigits_append, ofDigits_zeros, ofDigits_digits]
    simp [ofDigits, digitValue]
  · have hsome : (digits n).getLast?.isSome := by simp [digits_ne_nil]
    rw [List.getLast?_append, Option.or_of_isSome hsome]
    exact getLast?_digits n

theorem exists_places {n : Nat} (hn : 0 < n) {e : Int} (he : e < 0) :
    ∃ whole fraction, Places n e whole fraction := by
  by_cases hfew : (-e).toNat < (digits n).length
  · exact ⟨_, _, places_split hn he hfew⟩
  · exact ⟨_, _, places_padded hn he (Nat.le_of_not_lt hfew)⟩

/-- Without trailing zeros, none of the digits could be left out. -/
theorem Places.writes {n : Nat} {e : Int} {whole fraction : List Char}
    (h : Places n e whole fraction) (hn : n % 10 ≠ 0) (he : e < 0) : Writes n e whole fraction := by
  refine ⟨⟨h.ne_nil, h.whole_digits, h.fraction_digits, h.lead, fun hlast => hn ?_⟩,
    h.positional_eq, h.length, ?_⟩
  · rw [h.last, Option.some.injEq, digitChar_eq_zero_iff (Nat.mod_lt n (by decide))] at hlast
    exact hlast
  · rw [h.value, Int.toNat_of_nonpos (Int.le_of_lt he), Nat.pow_zero, Nat.mul_one]

/-- A number without trailing zeros is written without superfluous digits. Zero
must come with the exponent zero. -/
theorem exists_writes {n : Nat} {e : Int} (h : n % 10 ≠ 0 ∨ n = 0 ∧ e = 0) :
    ∃ whole fraction, Writes n e whole fraction := by
  rcases h with hn | ⟨rfl, rfl⟩
  · by_cases he : 0 ≤ e
    · exact ⟨_, _, writes_digits (by omega) he⟩
    · obtain ⟨whole, fraction, h⟩ := exists_places (n := n) (by omega) (Int.lt_of_not_ge he)
      exact ⟨whole, fraction, h.writes hn (Int.lt_of_not_ge he)⟩
  · exact ⟨['0'], [], ⟨by simp, by decide, rfl, fun _ => rfl, by simp⟩, rfl, rfl, rfl⟩

/-- With a sign on all numbers but zero. -/
theorem Writes.isPlain {n : Nat} {e : Int} {whole fraction : List Char}
    (h : Writes n e whole fraction) {negative : Bool} (hsign : negative = true → n ≠ 0) :
    IsPlain (signed negative (positional n e)) negative whole fraction := by
  refine ⟨h.toIsMinimal, by rw [h.positional_eq], fun hneg hzero => hsign hneg ?_⟩
  have hvalue := h.value
  rw [pointed] at hzero
  split at hzero
  · next hnil =>
    subst hnil hzero
    have hprod : n * 10 ^ e.toNat = 0 := hvalue.symm
    exact (Nat.mul_eq_zero.mp hprod).resolve_right (Nat.ne_of_gt (Nat.pow_pos (by decide)))
  · have hlength := congrArg List.length hzero
    have hwhole := List.length_pos_iff.mpr h.ne_nil
    simp only [List.length_append, List.length_cons, List.length_nil] at hlength
    omega

/-! ## Notation with an exponent -/

/-- One digit, the others behind a point, and an exponent. -/
theorem exists_scientific {n : Nat} (hn : 0 < n) (mark : List Char) (e : Int) :
    ∃ d ds, digits n = d :: ds ∧ IsNumeral [d] ds ∧
      scientific mark n e = pointed [d] ds ++ mark ++ ofInt (leadingExponent n e) := by
  unfold scientific
  have hall := all_isDigit_digits n
  have hhead := head?_digits hn
  cases h : digits n with
  | nil => exact absurd h (digits_ne_nil n)
  | cons d ds =>
      rw [h, List.all_cons, Bool.and_eq_true] at hall
      rw [h, List.head?_cons] at hhead
      refine ⟨d, ds, rfl, ⟨nofun, by simpa using hall.1, hall.2, fun hd => absurd hd hhead⟩, ?_⟩
      cases ds <;> simp [pointed]

end RowCode.Text
