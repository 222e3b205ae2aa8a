import RowCode.Text.Blank
import RowCode.Text.Numeral

/-!
# Strings of digits

What the digits of a number look like: they are digits, the first is a zero for
the number zero alone, and the last tells the number modulo ten, so that a power
of ten behind a number shows as zeros behind its digits (`digits_mul_pow`). The
number that a string of digits denotes is taken apart where the string is
(`ofDigits_append`), and is below the power of ten of its length
(`ofDigits_lt`).

An integer is read off a sign and digits, and off nothing else
(`readInt?_eq_some_iff`), so the text of an integer gives it back
(`readInt?_ofInt`), and has no blanks that would be taken off first.
-/

namespace RowCode.Text

/-! ## Characters -/

theorem isDigit_digitChar {d : Nat} (h : d < 10) : isDigit (digitChar d) = true := by
  match d, h with
  | 0, _ | 1, _ | 2, _ | 3, _ | 4, _ | 5, _ | 6, _ | 7, _ | 8, _ | 9, _ => decide

theorem digitChar_eq_zero_iff {d : Nat} (h : d < 10) : digitChar d = '0' ↔ d = 0 := by
  match d, h with
  | 0, _ | 1, _ | 2, _ | 3, _ | 4, _ | 5, _ | 6, _ | 7, _ | 8, _ | 9, _ => decide

theorem isDigit_iff {c : Char} : isDigit c = true ↔ 48 ≤ c.toNat ∧ c.toNat ≤ 57 := by
  simp only [isDigit, Bool.and_eq_true, decide_eq_true_eq, Char.le_def, UInt32.le_iff_toNat_le]
  exact Iff.rfl

theorem digitValue_lt {c : Char} (h : isDigit c = true) : digitValue c < 10 := by
  have hrange := isDigit_iff.mp h
  unfold digitValue
  omega

/-! ## Digits of a number -/

theorem digitsBefore_eq (n : Nat) (rest : List Char) :
    digitsBefore n rest = digits n ++ rest := by
  induction n using Nat.strongRecOn generalizing rest with
  | _ n ih =>
      unfold digits
      rw [digitsBefore]
      conv => rhs; rw [digitsBefore]
      split
      · rfl
      · have hlt : n / 10 < n := by omega
        rw [ih _ hlt, ih _ hlt [_]]
        simp

theorem digits_of_lt {n : Nat} (h : n < 10) : digits n = [digitChar n] := by
  rw [digits, digitsBefore, dif_pos h]

/-- The last digit, behind those of the rest. -/
theorem digits_of_le {n : Nat} (h : 10 ≤ n) :
    digits n = digits (n / 10) ++ [digitChar (n % 10)] := by
  rw [← digitsBefore_eq, digits, digitsBefore, dif_neg (Nat.not_lt.mpr h)]

theorem digits_ne_nil (n : Nat) : digits n ≠ [] := by
  by_cases h : n < 10
  · simp [digits_of_lt h]
  · simp [digits_of_le (Nat.le_of_not_lt h)]

theorem all_isDigit_digits (n : Nat) : (digits n).all isDigit = true := by
  induction n using Nat.strongRecOn with
  | _ n ih =>
      by_cases h : n < 10
      · simp [digits_of_lt h, isDigit_digitChar h]
      · have hlast : isDigit (digitChar (n % 10)) = true := isDigit_digitChar (by omega)
        simp [digits_of_le (Nat.le_of_not_lt h), ih (n / 10) (by omega), hlast]

/-- Only zero is written with a zero in front. -/
theorem head?_digits {n : Nat} (h : 0 < n) : (digits n).head? ≠ some '0' := by
  induction n using Nat.strongRecOn with
  | _ n ih =>
      by_cases hn : n < 10
      · simp [digits_of_lt hn, digitChar_eq_zero_iff hn, Nat.ne_of_gt h]
      · have hsome : (digits (n / 10)).head?.isSome := by simp [digits_ne_nil]
        rw [digits_of_le (Nat.le_of_not_lt hn), List.head?_append, Option.or_of_isSome hsome]
        exact ih (n / 10) (by omega) (by omega)

theorem getLast?_digits (n : Nat) : (digits n).getLast? = some (digitChar (n % 10)) := by
  by_cases h : n < 10
  · simp [digits_of_lt h, Nat.mod_eq_of_lt h]
  · simp [digits_of_le (Nat.le_of_not_lt h)]

theorem zeros_succ (k : Nat) : zeros (k + 1) = zeros k ++ ['0'] :=
  List.replicate_succ'

/-- Powers of ten are zeros behind the digits. -/
theorem digits_mul_pow {n : Nat} (hn : 0 < n) (k : Nat) :
    digits (n * 10 ^ k) = digits n ++ zeros k := by
  induction k with
  | zero => simp [zeros]
  | succ k ih =>
      have hpos : 0 < n * 10 ^ k := Nat.mul_pos hn (Nat.pow_pos (by decide))
      have hsucc : n * 10 ^ (k + 1) = n * 10 ^ k * 10 := by rw [Nat.pow_succ, Nat.mul_assoc]
      rw [hsucc, digits_of_le (by omega), Nat.mul_div_cancel _ (by decide), Nat.mul_mod_left, ih,
        zeros_succ, List.append_assoc]
      rfl

/-! ## Numbers of digits -/

theorem foldl_digitValue (s : List Char) (n : Nat) :
    s.foldl (fun n c => 10 * n + digitValue c) n = n * 10 ^ s.length + ofDigits s := by
  induction s generalizing n with
  | nil => simp [ofDigits]
  | cons c s ih =>
      unfold ofDigits
      rw [List.foldl_cons, List.foldl_cons, ih, ih (10 * 0 + _), List.length_cons, Nat.pow_succ,
        Nat.add_mul, Nat.mul_zero, Nat.zero_add, Nat.mul_comm 10 n, Nat.mul_assoc, Nat.mul_comm 10,
        Nat.add_assoc]

theorem ofDigits_append (s t : List Char) :
    ofDigits (s ++ t) = ofDigits s * 10 ^ t.length + ofDigits t := by
  rw [ofDigits, List.foldl_append, foldl_digitValue]
  rfl

theorem ofDigits_zeros (k : Nat) : ofDigits (zeros k) = 0 := by
  induction k with
  | zero => rfl
  | succ k ih =>
      rw [zeros_succ, ofDigits_append, ih]
      rfl

theorem ofDigits_lt {s : List Char} (h : s.all isDigit = true) : ofDigits s < 10 ^ s.length := by
  induction s with
  | nil => decide
  | cons c s ih =>
      simp only [List.all_cons, Bool.and_eq_true] at h
      have hhead := digitValue_lt h.1
      have htail := ih h.2
      have hle : digitValue c * 10 ^ s.length ≤ 9 * 10 ^ s.length :=
        Nat.mul_le_mul_right _ (by omega)
      have hcons : ofDigits (c :: s) = digitValue c * 10 ^ s.length + ofDigits s := by
        rw [← List.singleton_append, ofDigits_append]
        simp [ofDigits]
      rw [hcons, List.length_cons, Nat.pow_succ]
      omega

/-! ## Signs and digits -/

/-- The characters of an integer. -/
def isFigure (c : Char) : Bool :=
  isDigit c || c == '-' || c == '+'

theorem isFigure_of_isDigit {c : Char} (h : isDigit c = true) : isFigure c = true := by
  simp [isFigure, h]

theorem ne_of_isFigure {c d : Char} (hc : isFigure c = true) (hd : isFigure d = false) : c ≠ d := by
  rintro rfl
  rw [hc] at hd
  cases hd

theorem splitSign_of_isDigit {s : List Char} (h : s.all isDigit = true) :
    splitSign s = (false, s) := by
  unfold splitSign
  split
  · simp [isDigit] at h
  · simp [isDigit] at h
  · rfl

theorem readInt?_eq_some_iff {s : List Char} {n : Int} :
    readInt? s = some n ↔ (splitSign s).2 ≠ [] ∧ (splitSign s).2.all isDigit = true ∧
      n = if (splitSign s).1 then -(ofDigits (splitSign s).2 : Int)
        else ofDigits (splitSign s).2 := by
  unfold readInt? readNat?
  by_cases h : (splitSign s).2 ≠ [] ∧ (splitSign s).2.all isDigit = true
  · rw [← and_assoc, and_iff_right h]
    simp only [if_pos h]
    exact ⟨fun hn => (Option.some.inj hn).symm, fun hn => congrArg some hn.symm⟩
  · rw [← and_assoc]
    simp only [if_neg h]
    exact iff_of_false (fun hn => nomatch hn) fun hn => h hn.1

/-- A sign and digits, read and put together. -/
theorem readInt?_signed (negative : Bool) {s : List Char} (hne : s ≠ [])
    (h : s.all isDigit = true) :
    readInt? (signed negative s) = some (if negative then -(ofDigits s : Int) else ofDigits s) := by
  rw [readInt?_eq_some_iff]
  cases negative with
  | true => simp [signed, splitSign, hne, h]
  | false => simp [signed, splitSign_of_isDigit h, hne, h]

theorem readInt?_ofInt (n : Int) : readInt? (ofInt n) = some n := by
  rw [ofInt, readInt?_signed _ (digits_ne_nil _) (all_isDigit_digits _), ofDigits_digits]
  congr 1
  simp only [decide_eq_true_eq]
  split <;> omega

theorem mem_of_splitSign {s : List Char} {c : Char} (h : c ∈ s) :
    c = '-' ∨ c = '+' ∨ c ∈ (splitSign s).2 := by
  unfold splitSign
  split
  · exact (List.mem_cons.mp h).imp_right Or.inr
  · exact Or.inr (List.mem_cons.mp h)
  · exact Or.inr (Or.inr h)

theorem mem_of_mem_splitSign {s : List Char} {c : Char} (h : c ∈ (splitSign s).2) : c ∈ s := by
  unfold splitSign at h
  split at h
  · exact List.mem_cons_of_mem _ h
  · exact List.mem_cons_of_mem _ h
  · exact h

/-- A text that is read as an integer has no other characters. -/
theorem isFigure_of_readInt? {s : List Char} {n : Int} (h : readInt? s = some n) :
    ∀ c ∈ s, isFigure c = true := by
  intro c hc
  obtain ⟨-, hall, -⟩ := readInt?_eq_some_iff.mp h
  rcases mem_of_splitSign hc with rfl | rfl | hmem
  · decide
  · decide
  · exact isFigure_of_isDigit (List.all_eq_true.mp hall c hmem)

/-! ## Blanks -/

theorem trim_of_forall {blank : Char → Bool} {s : List Char} (h : ∀ c ∈ s, blank c = false) :
    trim blank s = s := by
  have hdrop : ∀ t : List Char, (∀ c ∈ t, blank c = false) → t.dropWhile blank = t := by
    intro t ht
    cases t with
    | nil => rfl
    | cons c t => rw [List.dropWhile_cons_of_neg (by simp [ht c])]
  have hreverse := hdrop s.reverse fun c hc => h c (List.mem_reverse.mp hc)
  rw [trim, trimLeft, hdrop s h, trimRight, hreverse, List.reverse_reverse]

theorem isSpace_of_isFigure {c : Char} (h : isFigure c = true) : isSpace c = false := by
  simp only [isFigure, Bool.or_eq_true, beq_iff_eq] at h
  rcases h with (hdigit | rfl) | rfl
  · rw [isDigit_iff] at hdigit
    simp [isSpace]
    omega
  · decide
  · decide

theorem stripped_ofList {s : List Char} (h : ∀ c ∈ s, isSpace c = false) :
    stripped (String.ofList s) = s := by
  rw [stripped, String.toList_ofList, trim_of_forall h]

theorem length_trim_le (blank : Char → Bool) (s : List Char) :
    (trim blank s).length ≤ s.length := by
  have hright := (List.dropWhile_suffix blank (l := (s.dropWhile blank).reverse)).length_le
  have hleft := (List.dropWhile_suffix blank (l := s)).length_le
  simp only [trim, trimRight, trimLeft, List.length_reverse] at *
  omega

end RowCode.Text
