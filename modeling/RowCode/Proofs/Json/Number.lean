import RowCode.Json.Number
import RowCode.Proofs.Decimal.Literal

/-!
# Numbers read back

A number that is written for interchange is taken apart by the reader as it was
put together (`readParts?_append`), provided that nothing stands behind it that
would carry it on (`Ends`). An integer is read as one (`toNumber?_integer`). For
any other number the digits are collected in a word; as long as they fit, the
result is a function of all digits together and their power of ten
(`toReal?_eq`).
-/

namespace RowCode.Json

open Text

/-! ## Digits -/

theorem span_append {p : Char → Bool} {s rest : List Char} (h : ∀ c ∈ s, p c = true)
    (hrest : ∀ c ∈ rest.head?, p c = false) : (s ++ rest).span p = (s, rest) := by
  rw [List.span_eq_takeWhile_dropWhile, List.takeWhile_append_of_pos h,
    List.dropWhile_append_of_pos h]
  cases rest with
  | nil => simp
  | cons c rest =>
      have hc : p c = false := hrest c rfl
      simp [hc]

/-- Digits are all taken if their number fits a word. -/
theorem takeDigits_eq : ∀ {ds : List Char} {n : Nat}, n * 10 ^ ds.length + ofDigits ds < 2 ^ 64 →
    takeDigits n ds = (n * 10 ^ ds.length + ofDigits ds, ds.length)
  | [], n, _ => by simp [takeDigits, ofDigits]
  | d :: ds, n, h => by
      have hcons : n * 10 ^ (d :: ds).length + ofDigits (d :: ds) =
          (10 * n + digitValue d) * 10 ^ ds.length + ofDigits ds := by
        rw [← foldl_digitValue, ← foldl_digitValue]
        rfl
      rw [hcons] at h ⊢
      have hnext : 10 * n + digitValue d < 2 ^ 64 := by
        have := Nat.le_mul_of_pos_right (10 * n + digitValue d)
          (Nat.pow_pos (by decide) : 0 < 10 ^ ds.length)
        omega
      rw [takeDigits]
      dsimp only
      rw [if_pos hnext, takeDigits_eq h]
      rfl

/-! ## Parts -/

/-- How the exponent is written, if there is one. -/
inductive IsExponent : List Char → Option Int → Prop where
  | absent : IsExponent [] none
  | signed (e : Int) : IsExponent ('e' :: ofInt e) (some e)
  | plus (n : Nat) : IsExponent ('e' :: '+' :: digits n) (some n)

/-- What may stand behind a number: nothing that would carry it on. -/
def Ends (rest : List Char) : Prop :=
  ∀ c ∈ rest.head?, isDigit c = false ∧ c ≠ '.' ∧ c ≠ 'e' ∧ c ≠ 'E'

theorem Ends.nil : Ends [] := by
  rintro c ⟨⟩

section

variable {whole fraction mark rest : List Char} {exponent : Option Int}

theorem readWhole?_append (h : IsNumeral whole fraction)
    (hrest : ∀ c ∈ rest.head?, isDigit c = false) :
    readWhole? (whole ++ rest) = some (whole, rest) := by
  have hall := List.all_eq_true.mp h.whole_digits
  unfold readWhole?
  split
  · next s hs =>
    cases whole with
    | nil => exact absurd rfl h.ne_nil
    | cons d ds =>
        obtain ⟨rfl, rfl⟩ := List.cons.inj hs
        obtain rfl : ds = [] := (List.cons.inj (h.lead rfl)).2
        rfl
  · rw [span_append hall hrest]
    exact if_neg h.ne_nil

theorem readFraction?_append (h : IsNumeral whole fraction)
    (hrest : ∀ c ∈ rest.head?, isDigit c = false ∧ c ≠ '.') :
    readFraction? ((if fraction = [] then [] else '.' :: fraction) ++ rest) =
      some (fraction, rest) := by
  have hall := List.all_eq_true.mp h.fraction_digits
  by_cases hnil : fraction = []
  · rw [if_pos hnil, List.nil_append, hnil]
    unfold readFraction?
    split
    · exact absurd rfl (hrest '.' rfl).2
    · rfl
  · rw [if_neg hnil, List.cons_append, readFraction?, span_append hall fun c hc => (hrest c hc).1]
    exact if_neg hnil

/-- Digits have no sign in front. -/
theorem splitSign_append {s : List Char} (hne : s ≠ []) (h : s.all isDigit = true) :
    splitSign (s ++ rest) = (false, s ++ rest) := by
  cases s with
  | nil => exact absurd rfl hne
  | cons d ds =>
      rw [List.all_cons, Bool.and_eq_true] at h
      unfold splitSign
      split
      · next hs =>
        obtain rfl := (List.cons.inj hs).1
        exact absurd h.1 (by decide)
      · next hs =>
        obtain rfl := (List.cons.inj hs).1
        exact absurd h.1 (by decide)
      · rfl

theorem readExponent?_append (h : IsExponent mark exponent) (hrest : Ends rest) :
    readExponent? (mark ++ rest) = some (exponent, rest) := by
  have hread : ∀ {negative : Bool} {n : Nat} {t : List Char},
      splitSign t = (negative, digits n ++ rest) →
      readExponent? ('e' :: t) = some (some (if negative then -(n : Int) else n), rest) := by
    intro negative n t ht
    have hspan : (digits n ++ rest).span isDigit = (digits n, rest) :=
      span_append (List.all_eq_true.mp (all_isDigit_digits n)) fun c hc => (hrest c hc).1
    rw [readExponent?, if_pos (Or.inl rfl), ht]
    dsimp only
    rw [hspan, if_neg (digits_ne_nil n), ofDigits_digits]
  cases h with
  | absent =>
      rw [List.nil_append]
      cases rest with
      | nil => rfl
      | cons c rest =>
          obtain ⟨-, -, he, hE⟩ := hrest c rfl
          rw [readExponent?, if_neg (by simp [he, hE])]
  | signed e =>
      by_cases he : e < 0
      · have hsign : splitSign (ofInt e ++ rest) = (true, digits e.natAbs ++ rest) := by
          simp [ofInt, signed, he, splitSign]
        rw [List.cons_append, hread hsign, if_pos rfl]
        congr 3
        omega
      · have hsign : splitSign (ofInt e ++ rest) = (false, digits e.natAbs ++ rest) := by
          simp only [ofInt, signed, he, decide_false, Bool.false_eq_true, if_false]
          exact splitSign_append (digits_ne_nil _) (all_isDigit_digits _)
        rw [List.cons_append, hread hsign, if_neg Bool.false_ne_true]
        congr 3
        omega
  | plus n => exact @hread false n ('+' :: digits n ++ rest) rfl

/-- A number is read as it was put together. -/
theorem readParts?_append (negative : Bool) (h : IsNumeral whole fraction)
    (hmark : IsExponent mark exponent) (hrest : Ends rest) :
    readParts? (signed negative (pointed whole fraction ++ mark) ++ rest) =
      some (⟨negative, whole, fraction, exponent⟩, rest) := by
  set point := if fraction = [] then [] else '.' :: fraction with hpoint
  have hsplit : pointed whole fraction ++ mark ++ rest = whole ++ (point ++ (mark ++ rest)) := by
    rw [pointed, hpoint]
    split <;> simp
  have hmark' : ∀ c ∈ (mark ++ rest).head?, isDigit c = false ∧ c ≠ '.' := by
    intro c hc
    cases hmark with
    | absent => exact ⟨(hrest c hc).1, (hrest c hc).2.1⟩
    | signed e =>
        obtain rfl : 'e' = c := Option.some.inj hc
        decide
    | plus n =>
        obtain rfl : 'e' = c := Option.some.inj hc
        decide
  have hpoint' : ∀ c ∈ (point ++ (mark ++ rest)).head?, isDigit c = false := by
    intro c hc
    rw [hpoint] at hc
    split at hc
    · exact (hmark' c hc).1
    · obtain rfl : '.' = c := Option.some.inj hc
      decide
  have hwhole := readWhole?_append h hpoint'
  have hfraction := readFraction?_append h hmark'
  have hexponent := readExponent?_append hmark hrest
  cases negative with
  | true =>
      rw [signed, if_pos rfl, List.cons_append, hsplit, readParts?, hwhole]
      dsimp only [bind, Option.bind]
      rw [hfraction]
      dsimp only
      rw [hexponent]
  | false =>
      have hsign : ∀ s, whole ++ (point ++ (mark ++ rest)) = '-' :: s → False := by
        intro s hs
        cases whole with
        | nil => exact h.ne_nil rfl
        | cons d ds =>
            obtain rfl := (List.cons.inj hs).1
            exact absurd (List.all_eq_true.mp h.whole_digits '-' (List.mem_cons_self ..))
              (by decide)
      rw [signed, if_neg Bool.false_ne_true, hsplit, readParts?]
      · rw [hwhole]
        dsimp only [bind, Option.bind]
        rw [hfraction]
        dsimp only
        rw [hexponent]
      · exact hsign

end

/-! ## Values -/

/-- Digits that fit a word are rounded together, and again with their power of ten. -/
theorem toReal?_eq (negative : Bool) {whole fraction : List Char} (exponent : Option Int)
    (h : ofDigits (whole ++ fraction) < 2 ^ 64) :
    Parts.toReal? ⟨negative, whole, fraction, exponent⟩ =
      (scaleByTen (.ofInt (ofDigits (whole ++ fraction)))
        (exponent.getD 0 - fraction.length)).map fun x => if negative then x.neg else x := by
  rw [ofDigits_append] at h ⊢
  have hwhole : takeDigits 0 whole = (ofDigits whole, whole.length) := by
    have hlt : 0 * 10 ^ whole.length + ofDigits whole < 2 ^ 64 := by
      have := Nat.le_mul_of_pos_right (ofDigits whole)
        (Nat.pow_pos (by decide) : 0 < 10 ^ fraction.length)
      omega
    rw [takeDigits_eq hlt, Nat.zero_mul, Nat.zero_add]
  have hexponent : ((whole.length - whole.length : Int) - fraction.length + exponent.getD 0) =
      exponent.getD 0 - fraction.length := by omega
  unfold Parts.toReal?
  dsimp only
  rw [hwhole]
  dsimp only
  rw [takeDigits_eq h]
  dsimp only
  rw [hexponent]

/-- An integer of at most 64 bits is read as one. -/
theorem toNumber?_integer {n : Int} (hlow : -2 ^ 63 ≤ n) (hhigh : n < 2 ^ 63) :
    Parts.toNumber? ⟨n < 0, digits n.natAbs, [], none⟩ = some (.integer n) := by
  have hinteger : Parts.isInteger ⟨n < 0, digits n.natAbs, [], none⟩ = true := by
    unfold Parts.isInteger
    dsimp only
    rw [ofDigits_digits]
    by_cases hn : n < 0
    · simp [hn]
      omega
    · simp [hn]
      omega
  unfold Parts.toNumber?
  rw [if_pos hinteger]
  dsimp only
  rw [ofDigits_digits]
  congr 2
  by_cases hn : n < 0
  · simp only [hn, decide_true, if_true]
    omega
  · simp only [hn, decide_false, Bool.false_eq_true, if_false]
    omega

theorem readParts?_ofInt (n : Int) {rest : List Char} (hrest : Ends rest) :
    readParts? (ofInt n ++ rest) = some (⟨n < 0, digits n.natAbs, [], none⟩, rest) := by
  have hread := readParts?_append (n < 0) (isNumeral_digits n.natAbs (rfl : [].all isDigit = true))
    .absent hrest
  rwa [pointed, if_pos rfl, List.append_nil] at hread

end RowCode.Json
