import Mathlib.Tactic.IntervalCases
import RowCode.Decimal.Equality

/-!
# Where equality of decimals departs from value

`Decimal.compare` looks at values, and `Decimal.same` walks through words and
keeps its sum in 64 bits. This module says when the walk goes wrong.

Follow the schoolbook product of a number with a power of ten. At each word the
walk adds the carry from below to the product of that word. If the product fits
64 bits and the sum does not, the carry into the word after next is lost
(`matchWords_of_overflow`), and only a word whose product is too large on its
own, met before the loss shows, still sends the walk to the exact product.
`LosesCarry` says this of the whole number. A product that fits 64 bits leaves
room for the carry under every power of ten up to the nineteenth but the tenth
(`not_losesCarry`), so equality departs from value only if the scales differ by
ten and the number with the smaller scale loses a carry, which is what
`Apart` says.

Of two decimals of one value that is exactly when they are told apart
(`same_eq_true_iff`). Two decimals of different values may pass for equal only
if they are apart (`compare_of_same`); most that are apart do not.
-/

namespace RowCode.Decimal

/-! ## Words -/

theorem words_zero : words 0 = [] := by
  rw [words, if_pos rfl]

theorem words_of_pos {n : Nat} (h : 0 < n) : words n = n % 2 ^ 32 :: words (n / 2 ^ 32) := by
  rw [words, if_neg (Nat.ne_of_gt h)]

theorem words_of_lt {n : Nat} (h : 0 < n) (hn : n < 2 ^ 32) : words n = [n] := by
  rw [words_of_pos h, Nat.mod_eq_of_lt hn, Nat.div_eq_of_lt hn, words_zero]

/-- A product split at its low word. -/
theorem mul_add_eq_word (n power carry : Nat) :
    n * power + carry =
      n % 2 ^ 32 * power + carry + 2 ^ 32 * (n / 2 ^ 32 * power) := by
  have hsplit : n * power = n % 2 ^ 32 * power + 2 ^ 32 * (n / 2 ^ 32 * power) := by
    rw [← Nat.mul_assoc, ← Nat.add_mul, Nat.mod_add_div]
  omega

theorem mul_add_mod_word (n power carry : Nat) :
    (n * power + carry) % 2 ^ 32 = (n % 2 ^ 32 * power + carry) % 2 ^ 32 := by
  rw [mul_add_eq_word, Nat.add_mul_mod_self_left]

theorem mul_add_div_word (n power carry : Nat) :
    (n * power + carry) / 2 ^ 32 =
      n / 2 ^ 32 * power + (n % 2 ^ 32 * power + carry) / 2 ^ 32 := by
  rw [mul_add_eq_word, Nat.add_mul_div_left _ _ (Nat.two_pow_pos 32), Nat.add_comm]

/-! ## The walk behind a lost carry

Three words matter: the one where the sum overflows, the next, which still
agrees since what is lost is a multiple of its modulus, and the one after it,
where the loss shows. -/

section

variable {power : Nat}

theorem matchWords_of_short (n : Nat) {carry : Nat} (hcarry : carry < 2 ^ 32) :
    (matchWords power carry (words (n * power + (carry + 1))) (words n)).getD true = true ↔
      2 ^ 64 ≤ n % 2 ^ 32 * power := by
  rcases Nat.eq_zero_or_pos n with rfl | hn
  · rw [Nat.zero_mul, Nat.zero_add, words_zero, words_of_pos (Nat.succ_pos carry), matchWords,
      if_neg (by omega)]
    simp
  · rw [words_of_pos hn, words_of_pos (show 0 < n * power + (carry + 1) by omega), matchWords]
    by_cases hbig : 2 ^ 64 ≤ n % 2 ^ 32 * power
    · rw [if_pos hbig]
      simpa using hbig
    · rw [if_neg hbig, mul_add_mod_word, if_neg (by omega)]
      simpa using hbig

theorem matchWords_of_lost (n : Nat) :
    (matchWords power 0 (words (n * power + 2 ^ 32)) (words n)).getD true = true ↔
      2 ^ 64 ≤ n % 2 ^ 32 * power ∨ 2 ^ 64 ≤ n / 2 ^ 32 % 2 ^ 32 * power := by
  rcases Nat.eq_zero_or_pos n with rfl | hn
  · have hwords : words (2 ^ 32) = [0, 1] := by
      rw [words_of_pos (Nat.two_pow_pos 32), Nat.mod_self, Nat.div_self (Nat.two_pow_pos 32),
        words_of_lt Nat.one_pos (Nat.one_lt_two_pow (by decide))]
    rw [Nat.zero_mul, Nat.zero_add, words_zero, hwords]
    simp [matchWords]
  · rw [words_of_pos hn, words_of_pos (show 0 < n * power + 2 ^ 32 by omega), matchWords]
    by_cases hbig : 2 ^ 64 ≤ n % 2 ^ 32 * power
    · rw [if_pos hbig]
      simpa using Or.inl hbig
    · have hcarry : n % 2 ^ 32 * power / 2 ^ 32 < 2 ^ 32 := by omega
      have hmod : (n * power + 2 ^ 32) % 2 ^ 32 = n % 2 ^ 32 * power % 2 ^ 32 := by
        rw [mul_add_mod_word, Nat.add_mod_right]
      have hdiv : (n * power + 2 ^ 32) / 2 ^ 32 =
          n / 2 ^ 32 * power + (n % 2 ^ 32 * power / 2 ^ 32 + 1) := by
        rw [mul_add_div_word, Nat.add_div_right _ (Nat.two_pow_pos 32)]
      rw [if_neg hbig, Nat.add_zero, Nat.mod_eq_of_lt (Nat.lt_of_not_le hbig), hmod, hdiv,
        if_pos rfl, matchWords_of_short (n / 2 ^ 32) hcarry]
      exact ⟨Or.inr, fun h => h.resolve_left hbig⟩

/-- Where the product of a word fits 64 bits and the sum with the carry does
not, only the next two words can still save the walk. -/
theorem matchWords_of_overflow {n carry : Nat} (hcarry : carry < 2 ^ 32)
    (hfits : n % 2 ^ 32 * power < 2 ^ 64) (hover : 2 ^ 64 ≤ n % 2 ^ 32 * power + carry) :
    (matchWords power carry (words (n * power + carry)) (words n)).getD true = true ↔
      2 ^ 64 ≤ n / 2 ^ 32 % 2 ^ 32 * power ∨
        2 ^ 64 ≤ n / 2 ^ 32 / 2 ^ 32 % 2 ^ 32 * power := by
  have hn : 0 < n := by
    rcases Nat.eq_zero_or_pos n with rfl | hn
    · omega
    · exact hn
  have hsum : (n % 2 ^ 32 * power + carry) % 2 ^ 64 / 2 ^ 32 = 0 := by omega
  have hmod : (n * power + carry) % 2 ^ 32 =
      (n % 2 ^ 32 * power + carry) % 2 ^ 64 % 2 ^ 32 := by
    rw [mul_add_mod_word]
    omega
  have hdiv : (n * power + carry) / 2 ^ 32 = n / 2 ^ 32 * power + 2 ^ 32 := by
    rw [mul_add_div_word]
    omega
  rw [words_of_pos hn, words_of_pos (show 0 < n * power + carry by omega), matchWords,
    if_neg (Nat.not_le_of_lt hfits), hmod, if_pos rfl, hsum, hdiv, matchWords_of_lost]

end

/-! ## Lost carries in whole numbers -/

/-- In the product of a number with a power, and with a carry into the lowest
word, some sum does not fit 64 bits although the products of the words up to
there do, and those of the next two words as well. -/
def LosesCarry (power carry n : Nat) : Prop :=
  ∃ i, 2 ^ (32 * i + 64) ≤ n % 2 ^ (32 * (i + 1)) * power + carry ∧
    ∀ j ≤ i + 2, n / 2 ^ (32 * j) % 2 ^ 32 * power < 2 ^ 64

theorem div_word_pow (n j : Nat) : n / 2 ^ 32 / 2 ^ (32 * j) = n / 2 ^ (32 * (j + 1)) := by
  rw [Nat.div_div_eq_div_mul, ← Nat.pow_add, Nat.mul_succ, Nat.add_comm]

theorem mod_word_pow (n i : Nat) :
    n % 2 ^ (32 * (i + 1)) = n % 2 ^ 32 + 2 ^ 32 * (n / 2 ^ 32 % 2 ^ (32 * i)) := by
  rw [Nat.mul_succ, Nat.add_comm, Nat.pow_add, Nat.mod_mul]

/-- The sum at a word, read off the number behind the lowest word. -/
theorem overflow_shift {power carry n : Nat} (i : Nat) :
    2 ^ (32 * (i + 1) + 64) ≤ n % 2 ^ (32 * (i + 2)) * power + carry ↔
      2 ^ (32 * i + 64) ≤
        n / 2 ^ 32 % 2 ^ (32 * (i + 1)) * power + (n % 2 ^ 32 * power + carry) / 2 ^ 32 := by
  have hpow : 2 ^ (32 * (i + 1) + 64) = 2 ^ (32 * i + 64) * 2 ^ 32 := by
    rw [← Nat.pow_add, show 32 * (i + 1) + 64 = 32 * i + 64 + 32 by omega]
  have hsum : n % 2 ^ (32 * (i + 2)) * power + carry =
      n % 2 ^ 32 * power + carry + 2 ^ 32 * (n / 2 ^ 32 % 2 ^ (32 * (i + 1)) * power) := by
    rw [mod_word_pow, Nat.add_mul, Nat.mul_assoc]
    omega
  rw [hpow, hsum]
  omega

/-- One word of the walk: the carry is lost here, or further up. -/
theorem losesCarry_iff {power carry n : Nat} :
    LosesCarry power carry n ↔
      n % 2 ^ 32 * power < 2 ^ 64 ∧
        ((2 ^ 64 ≤ n % 2 ^ 32 * power + carry ∧ n / 2 ^ 32 % 2 ^ 32 * power < 2 ^ 64 ∧
            n / 2 ^ 32 / 2 ^ 32 % 2 ^ 32 * power < 2 ^ 64) ∨
          LosesCarry power ((n % 2 ^ 32 * power + carry) / 2 ^ 32) (n / 2 ^ 32)) := by
  have hword : ∀ j, n / 2 ^ 32 / 2 ^ (32 * j) % 2 ^ 32 = n / 2 ^ (32 * (j + 1)) % 2 ^ 32 :=
    fun j => by rw [div_word_pow]
  constructor
  · rintro ⟨i, hover, hfits⟩
    refine ⟨by simpa using hfits 0 (Nat.zero_le _), ?_⟩
    cases i with
    | zero =>
        refine Or.inl ⟨by simpa using hover, ?_, ?_⟩
        · simpa using hfits 1 (by omega)
        · simpa [Nat.div_div_eq_div_mul] using hfits 2 (Nat.le_refl _)
    | succ i =>
        refine Or.inr ⟨i, (overflow_shift i).mp hover, fun j hj => ?_⟩
        rw [hword]
        exact hfits (j + 1) (by omega)
  · rintro ⟨hfirst, ⟨hover, hsecond, hthird⟩ | ⟨i, hover, hfits⟩⟩
    · refine ⟨0, by simpa using hover, fun j hj => ?_⟩
      match j, hj with
      | 0, _ => simpa using hfirst
      | 1, _ => simpa using hsecond
      | 2, _ => simpa [Nat.div_div_eq_div_mul] using hthird
    · refine ⟨i + 1, (overflow_shift i).mpr hover, fun j hj => ?_⟩
      cases j with
      | zero => simpa using hfirst
      | succ j =>
          rw [← hword]
          exact hfits j (by omega)

theorem not_losesCarry_zero {power carry : Nat} (hcarry : carry < 2 ^ 32) :
    ¬LosesCarry power carry 0 := by
  rintro ⟨i, hover, -⟩
  have hpow : 2 ^ 64 ≤ 2 ^ (32 * i + 64) := Nat.pow_le_pow_right (by decide) (by omega)
  rw [Nat.zero_mod, Nat.zero_mul, Nat.zero_add] at hover
  omega

/-- A carry is lost only where the words that could save the walk do not. -/
theorem LosesCarry.fits {power carry n : Nat} (h : LosesCarry power carry n) :
    n % 2 ^ 32 * power < 2 ^ 64 ∧ n / 2 ^ 32 % 2 ^ 32 * power < 2 ^ 64 := by
  obtain ⟨i, -, hfits⟩ := h
  exact ⟨by simpa using hfits 0 (Nat.zero_le _), by simpa using hfits 1 (by omega)⟩

/-- The walk over a number and its true product agrees, or leaves the matter
open, unless a carry is lost. -/
theorem matchWords_mul {power : Nat} (hpower : 0 < power) (n : Nat) :
    ∀ {carry : Nat}, carry < 2 ^ 32 →
      ((matchWords power carry (words (n * power + carry)) (words n)).getD true = true ↔
        ¬LosesCarry power carry n) := by
  induction n using Nat.strongRecOn with
  | _ n ih =>
      intro carry hcarry
      rcases Nat.eq_zero_or_pos n with rfl | hn
      · refine ⟨fun _ => not_losesCarry_zero hcarry, fun _ => ?_⟩
        rw [Nat.zero_mul, Nat.zero_add, words_zero]
        rcases Nat.eq_zero_or_pos carry with rfl | hpos
        · rw [words_zero]
          rfl
        · rw [words_of_lt hpos hcarry]
          simp [matchWords]
      · have hpos : 0 < n * power + carry := Nat.add_pos_left (Nat.mul_pos hn hpower) carry
        rw [losesCarry_iff]
        by_cases hbig : 2 ^ 64 ≤ n % 2 ^ 32 * power
        · rw [words_of_pos hn, words_of_pos hpos, matchWords, if_pos hbig]
          exact ⟨fun _ h => absurd hbig (Nat.not_le_of_lt h.1), fun _ => rfl⟩
        · have hfits := Nat.lt_of_not_le hbig
          by_cases hover : 2 ^ 64 ≤ n % 2 ^ 32 * power + carry
          · rw [matchWords_of_overflow hcarry hfits hover]
            constructor
            · rintro hsaved ⟨-, ⟨-, hsecond, hthird⟩ | hlater⟩
              · omega
              · have := hlater.fits
                omega
            · intro hkept
              by_contra hsaved
              exact hkept ⟨hfits, Or.inl ⟨hover, by omega, by omega⟩⟩
          · have hlt : n / 2 ^ 32 < n := Nat.div_lt_self hn (by decide)
            have hcarry' : (n % 2 ^ 32 * power + carry) / 2 ^ 32 < 2 ^ 32 := by omega
            rw [words_of_pos hn, words_of_pos hpos, matchWords, if_neg hbig,
              Nat.mod_eq_of_lt (Nat.lt_of_not_le hover), mul_add_mod_word, if_pos rfl,
              mul_add_div_word n power carry, ih _ hlt hcarry']
            constructor
            · rintro hkept ⟨-, ⟨hover', -⟩ | hlater⟩
              · exact hover hover'
              · exact hkept hlater
            · exact fun hkept hlater => hkept ⟨hfits, Or.inr hlater⟩

/-- Where a product that fits always leaves room for the carry, none is lost. -/
theorem not_losesCarry {power : Nat}
    (hroom : ∀ w < 2 ^ 32, w * power < 2 ^ 64 → w * power + 2 ^ 32 ≤ 2 ^ 64) (n : Nat) :
    ∀ {carry : Nat}, carry < 2 ^ 32 → ¬LosesCarry power carry n := by
  induction n using Nat.strongRecOn with
  | _ n ih =>
      intro carry hcarry hloses
      rcases Nat.eq_zero_or_pos n with rfl | hn
      · exact not_losesCarry_zero hcarry hloses
      · obtain ⟨hfits, ⟨hover, -⟩ | hlater⟩ := losesCarry_iff.mp hloses
        · have := hroom _ (Nat.mod_lt n (Nat.two_pow_pos 32)) hfits
          omega
        · have := hroom _ (Nat.mod_lt n (Nat.two_pow_pos 32)) hfits
          exact ih _ (Nat.div_lt_self hn (by decide)) (by omega) hlater

/-- The tenth power of ten is the only one whose products may leave too little
room. -/
theorem room_of_zeros {zeros : Nat} (hmatched : zeros ≤ matchedZeros) (hten : zeros ≠ 10) :
    ∀ w < 2 ^ 32, w * 10 ^ zeros < 2 ^ 64 → w * 10 ^ zeros + 2 ^ 32 ≤ 2 ^ 64 := by
  intro w hw hfits
  rw [matchedZeros] at hmatched
  interval_cases zeros <;> first | contradiction | omega

/-! ## What the walk accepts -/

section

variable {power : Nat}

/-- With no words left to multiply, the walk accepts the carry alone. -/
theorem eq_of_matchWords_nil (a : Nat) : ∀ {carry : Nat},
    matchWords power carry (words a) [] = some true → a = carry := by
  induction a using Nat.strongRecOn with
  | _ a ih =>
      intro carry h
      rcases Nat.eq_zero_or_pos a with rfl | ha
      · rw [words_zero, matchWords] at h
        simpa [eq_comm] using h
      · rw [words_of_pos ha, matchWords] at h
        split at h
        · next hword =>
          have hrest := ih _ (Nat.div_lt_self ha (by decide)) h
          omega
        · cases h

/-- One word of a walk that accepts. -/
theorem matchWords_eq_some_true {carry a b : Nat} (hb : 0 < b)
    (h : matchWords power carry (words a) (words b) = some true) :
    b % 2 ^ 32 * power < 2 ^ 64 ∧
      a % 2 ^ 32 = (b % 2 ^ 32 * power + carry) % 2 ^ 64 % 2 ^ 32 ∧
      matchWords power ((b % 2 ^ 32 * power + carry) % 2 ^ 64 / 2 ^ 32) (words (a / 2 ^ 32))
        (words (b / 2 ^ 32)) = some true := by
  rcases Nat.eq_zero_or_pos a with rfl | ha
  · rw [words_zero, words_of_pos hb, matchWords] at h
    cases h
  · rw [words_of_pos ha, words_of_pos hb, matchWords] at h
    split at h
    · cases h
    · next hfits =>
      dsimp only at h
      split at h
      · next hword => exact ⟨Nat.lt_of_not_le hfits, hword, h⟩
      · cases h

/-- A walk that accepts has met no word whose product is too large. -/
theorem fits_of_matchWords (b : Nat) : ∀ {carry a : Nat},
    matchWords power carry (words a) (words b) = some true →
      ∀ j, b / 2 ^ (32 * j) % 2 ^ 32 * power < 2 ^ 64 := by
  induction b using Nat.strongRecOn with
  | _ b ih =>
      intro carry a h j
      rcases Nat.eq_zero_or_pos b with rfl | hb
      · simp
      · obtain ⟨hfirst, -, hrest⟩ := matchWords_eq_some_true hb h
        cases j with
        | zero => simpa using hfirst
        | succ j =>
            rw [← div_word_pow]
            exact ih _ (Nat.div_lt_self hb (by decide)) hrest j

/-- The walk accepts the true product only, unless a carry is lost. -/
theorem eq_of_matchWords (b : Nat) : ∀ {carry a : Nat}, ¬LosesCarry power carry b →
    matchWords power carry (words a) (words b) = some true → a = b * power + carry := by
  induction b using Nat.strongRecOn with
  | _ b ih =>
      intro carry a hkept h
      rcases Nat.eq_zero_or_pos b with rfl | hb
      · rw [words_zero] at h
        rw [Nat.zero_mul, Nat.zero_add, eq_of_matchWords_nil a h]
      · obtain ⟨hfirst, hword, hrest⟩ := matchWords_eq_some_true hb h
        have hover : b % 2 ^ 32 * power + carry < 2 ^ 64 := by
          by_contra hover
          refine hkept ⟨0, ?_, fun j _ => fits_of_matchWords b h j⟩
          simpa using hover
        rw [Nat.mod_eq_of_lt hover] at hword hrest
        have hkept' : ¬LosesCarry power ((b % 2 ^ 32 * power + carry) / 2 ^ 32) (b / 2 ^ 32) :=
          fun hlater => hkept (losesCarry_iff.mpr ⟨hfirst, Or.inr hlater⟩)
        have hdiv := ih _ (Nat.div_lt_self hb (by decide)) hkept' hrest
        rw [← mul_add_div_word] at hdiv
        rw [← mul_add_mod_word] at hword
        omega

end

/-! ## Equality of decimals -/

/-- The numbers whose product with the tenth power of ten is not recognised. -/
def Slips (n : Nat) : Prop :=
  LosesCarry (10 ^ 10) 0 n

/-- The sum at the second word does not fit, and there is no third word to save the walk. -/
theorem slips_carry : Slips 7922816251533193472 := by
  refine ⟨1, by decide, fun j hj => ?_⟩
  interval_cases j <;> decide

theorem isShifted_mul {n : Nat} (hn : 0 < n) (zeros : Nat) :
    isShifted (n * 10 ^ zeros) n zeros = true ↔ ¬(zeros = 10 ∧ Slips n) := by
  have hpow : 0 < 10 ^ zeros := Nat.pow_pos (by decide)
  have hlog : n.log2 + (10 ^ zeros).log2 ≤ (n * 10 ^ zeros).log2 := by
    rw [Nat.le_log2 (Nat.ne_of_gt (Nat.mul_pos hn hpow)), Nat.pow_add]
    exact Nat.mul_le_mul (Nat.log2_self_le (Nat.ne_of_gt hn))
      (Nat.log2_self_le (Nat.ne_of_gt hpow))
  rw [isShifted, if_neg (Nat.not_lt_of_le hlog)]
  by_cases hmatched : zeros ≤ matchedZeros
  · have hwalk := matchWords_mul hpow n (Nat.two_pow_pos 32)
    rw [Nat.add_zero] at hwalk
    simp only [if_pos hmatched, decide_true, hwalk]
    by_cases hten : zeros = 10
    · subst hten
      simp [Slips]
    · simp [hten, not_losesCarry (room_of_zeros hmatched hten) n (Nat.two_pow_pos 32)]
  · have hten : zeros ≠ 10 := fun h => hmatched (by rw [h, matchedZeros]; decide)
    simp [if_neg hmatched, hten]

/-- Numbers that pass for shifted are, unless a carry is lost. -/
theorem eq_of_isShifted {m n zeros : Nat} (h : isShifted m n zeros = true)
    (hkept : ¬(zeros = 10 ∧ Slips n)) : m = n * 10 ^ zeros := by
  rw [isShifted] at h
  split at h
  · cases h
  · dsimp only at h
    split at h
    · next hmatched =>
      have hkept' : ¬LosesCarry (10 ^ zeros) 0 n := by
        by_cases hten : zeros = 10
        · subst hten
          exact fun hslips => hkept ⟨rfl, hslips⟩
        · exact not_losesCarry (room_of_zeros hmatched hten) n (Nat.two_pow_pos 32)
      rcases hwalk : matchWords (10 ^ zeros) 0 (words m) (words n) with _ | _ | _
      · rw [hwalk] at h
        simpa using h
      · rw [hwalk] at h
        cases h
      · exact eq_of_matchWords n hkept' hwalk
    · simpa using h

/-- Two decimals have one value exactly if the number with the larger scale is
the other with that many zeros more. -/
theorem compare_eq_iff_of_le {a b : Decimal} (h : b.scale ≤ a.scale) :
    a.compare b = .eq ↔ a.unscaled = b.unscaled * 10 ^ (a.scale - b.scale).toNat := by
  have hpow : (10 : Int) ^ (a.scale - b.scale).toNat ≠ 0 := pow_ne_zero _ (by decide)
  rw [compare]
  by_cases hzero : a.unscaled = 0 ∨ b.unscaled = 0
  · rw [if_pos hzero, Std.compare_eq_iff_eq]
    rcases hzero with ha | hb
    · simp [ha, hpow, eq_comm]
    · simp [hb]
  · rw [if_neg hzero, Std.compare_eq_iff_eq, max_eq_left h]
    rw [not_or] at hzero
    simp [rescale, hzero.1, hzero.2]

theorem compare_eq_iff_of_ge {a b : Decimal} (h : a.scale ≤ b.scale) :
    a.compare b = .eq ↔ b.unscaled = a.unscaled * 10 ^ (b.scale - a.scale).toNat := by
  have hpow : (10 : Int) ^ (b.scale - a.scale).toNat ≠ 0 := pow_ne_zero _ (by decide)
  rw [compare]
  by_cases hzero : a.unscaled = 0 ∨ b.unscaled = 0
  · rw [if_pos hzero, Std.compare_eq_iff_eq]
    rcases hzero with ha | hb
    · simp [ha, eq_comm]
    · simp [hb, hpow]
  · rw [if_neg hzero, Std.compare_eq_iff_eq, max_eq_right h]
    rw [not_or] at hzero
    simp [rescale, hzero.1, hzero.2, eq_comm]

/-- The scales of two decimals differ by ten, and the number with the smaller
scale slips. -/
def Apart (a b : Decimal) : Prop :=
  (a.scale = b.scale + 10 ∧ Slips b.unscaled.natAbs) ∨
    (b.scale = a.scale + 10 ∧ Slips a.unscaled.natAbs)

theorem isShifted_of_eq_mul {m n : Int} {zeros : Nat} (hn : n ≠ 0) (h : m = n * 10 ^ zeros) :
    isShifted m.natAbs n.natAbs zeros = true ↔ ¬(zeros = 10 ∧ Slips n.natAbs) := by
  rw [← isShifted_mul (Int.natAbs_pos.mpr hn), h, Int.natAbs_mul, Int.natAbs_pow]
  rfl

theorem sign_mul_pow (n : Int) (zeros : Nat) : (n * 10 ^ zeros).sign = n.sign := by
  rw [Int.sign_mul, Int.sign_eq_one_of_pos (pow_pos (by decide) zeros), Int.mul_one]

/-- Decimals of one value are equal unless they are apart. -/
theorem same_eq_true_iff {a b : Decimal} (h : a.compare b = .eq) :
    a.same b = true ↔ ¬Apart a b := by
  have hslips : ¬Slips 0 := not_losesCarry_zero (Nat.two_pow_pos 32)
  rcases Int.lt_trichotomy a.scale b.scale with hlt | heq | hgt
  · have hb := (compare_eq_iff_of_ge (Int.le_of_lt hlt)).mp h
    have hsign : a.unscaled.sign = b.unscaled.sign := by rw [hb, sign_mul_pow]
    have happ : Apart a b ↔ (b.scale - a.scale).toNat = 10 ∧ Slips a.unscaled.natAbs := by
      constructor
      · rintro (⟨hscale, -⟩ | ⟨hscale, hs⟩)
        · omega
        · exact ⟨by omega, hs⟩
      · rintro ⟨hten, hs⟩
        exact Or.inr ⟨by omega, hs⟩
    rw [happ, same, if_neg (not_not_intro hsign)]
    by_cases ha : a.unscaled = 0
    · rw [if_pos (by simp [isZero, ha])]
      simp [ha, hslips]
    · rw [if_neg (by simp [isZero, ha])]
      simp only [if_neg (Int.ne_of_lt hlt), if_neg (Int.not_lt.mpr (Int.le_of_lt hlt))]
      exact isShifted_of_eq_mul ha hb
  · have ha := (compare_eq_iff_of_le (Int.le_of_eq heq.symm)).mp h
    rw [heq, Int.sub_self, Int.toNat_zero, pow_zero, Int.mul_one] at ha
    have happ : ¬Apart a b := by
      rintro (⟨hscale, -⟩ | ⟨hscale, -⟩) <;> omega
    refine ⟨fun _ => happ, fun _ => ?_⟩
    simp [same, ha, heq]
  · have ha := (compare_eq_iff_of_le (Int.le_of_lt hgt)).mp h
    have hsign : a.unscaled.sign = b.unscaled.sign := by rw [ha, sign_mul_pow]
    have happ : Apart a b ↔ (a.scale - b.scale).toNat = 10 ∧ Slips b.unscaled.natAbs := by
      constructor
      · rintro (⟨hscale, hs⟩ | ⟨hscale, -⟩)
        · exact ⟨by omega, hs⟩
        · omega
      · rintro ⟨hten, hs⟩
        exact Or.inl ⟨by omega, hs⟩
    rw [happ, same, if_neg (not_not_intro hsign)]
    by_cases hb : b.unscaled = 0
    · rw [if_pos (by simp [isZero, ha, hb])]
      simp [hb, hslips]
    · have ha' : a.unscaled ≠ 0 := by
        rw [ha]
        exact mul_ne_zero hb (pow_ne_zero _ (by decide))
      rw [if_neg (by simp [isZero, ha'])]
      simp only [if_neg (Int.ne_of_gt hgt), if_pos hgt]
      exact isShifted_of_eq_mul hb ha

theorem eq_mul_of_natAbs {m n : Int} {zeros : Nat} (hsign : m.sign = n.sign)
    (h : m.natAbs = n.natAbs * 10 ^ zeros) : m = n * 10 ^ zeros := by
  have hpow : ((n.natAbs * 10 ^ zeros : Nat) : Int) = n.natAbs * 10 ^ zeros := by push_cast; rfl
  rw [← Int.sign_mul_natAbs m, ← Int.sign_mul_natAbs n, hsign, h, hpow, Int.mul_assoc]

/-- Equal decimals are of one value unless they are apart. -/
theorem compare_of_same {a b : Decimal} (hapart : ¬Apart a b) (h : a.same b = true) :
    a.compare b = .eq := by
  rw [same] at h
  split at h
  · cases h
  · next hsign =>
    rw [not_not] at hsign
    split at h
    · next hzero =>
      have ha : a.unscaled = 0 := by simpa [isZero] using hzero
      have hb : b.unscaled = 0 := by
        rw [ha, Int.sign_zero, eq_comm, Int.sign_eq_zero_iff_zero] at hsign
        exact hsign
      simp [compare, ha, hb]
    · dsimp only at h
      rcases Int.lt_trichotomy a.scale b.scale with hlt | heq | hgt
      · rw [if_neg (Int.ne_of_lt hlt), if_neg (Int.not_lt.mpr (Int.le_of_lt hlt))] at h
        rw [compare_eq_iff_of_ge (Int.le_of_lt hlt)]
        refine eq_mul_of_natAbs hsign.symm (eq_of_isShifted h ?_)
        rintro ⟨hten, hslips⟩
        exact hapart (Or.inr ⟨by omega, hslips⟩)
      · rw [if_pos heq, decide_eq_true_iff] at h
        rw [compare_eq_iff_of_ge (Int.le_of_eq heq), heq, Int.sub_self]
        refine eq_mul_of_natAbs hsign.symm ?_
        simp [h]
      · rw [if_neg (Int.ne_of_gt hgt), if_pos hgt] at h
        rw [compare_eq_iff_of_le (Int.le_of_lt hgt)]
        refine eq_mul_of_natAbs hsign (eq_of_isShifted h ?_)
        rintro ⟨hten, hslips⟩
        exact hapart (Or.inl ⟨by omega, hslips⟩)

theorem same_comm (a b : Decimal) : a.same b = b.same a := by
  rw [same, same]
  by_cases hsign : a.unscaled.sign = b.unscaled.sign
  · have hzero : a.isZero = b.isZero := by
      rw [isZero, isZero, decide_eq_decide, ← Int.sign_eq_zero_iff_zero, hsign,
        Int.sign_eq_zero_iff_zero]
    rw [if_neg (not_not_intro hsign), if_neg (not_not_intro hsign.symm), hzero]
    rcases Int.lt_trichotomy a.scale b.scale with hlt | heq | hgt
    · simp only [if_neg (Int.ne_of_lt hlt), if_neg (Int.ne_of_gt hlt),
        if_neg (Int.not_lt.mpr (Int.le_of_lt hlt)), if_pos hlt]
    · simp only [if_pos heq, eq_comm]
    · simp only [if_neg (Int.ne_of_lt hgt), if_neg (Int.ne_of_gt hgt),
        if_neg (Int.not_lt.mpr (Int.le_of_lt hgt)), if_pos hgt]
  · rw [if_pos hsign, if_pos (Ne.symm hsign)]

end RowCode.Decimal
