/-!
# Rounding a quotient to an integer

Floats, decimals and texts of numbers all round in the same way: an exact quotient is replaced by
the nearest integer, and only what happens half way between two integers differs. `roundDiv` is
that one operation, with the rule for ties as its argument.
-/

namespace RowCode

/-- What becomes of a value half way between two integers. -/
inductive Tie where
  /-- It goes to the even neighbour. -/
  | toEven
  /-- It goes away from zero. -/
  | away
deriving Repr, DecidableEq

/-- The integer nearest to `num / den`. -/
def roundDiv (tie : Tie) (num den : Nat) : Nat :=
  let q := num / den
  let twice := 2 * (num % den)
  if twice < den then q
  else if den < twice then q + 1
  else match tie with
    | .toEven => q + q % 2
    | .away => q + 1

theorem roundDiv_of_dvd (tie : Tie) {num den : Nat} (h : den ∣ num) (pos : 0 < den) :
    roundDiv tie num den = num / den := by
  have : num % den = 0 := Nat.mod_eq_zero_of_dvd h
  simp [roundDiv, this, pos]

theorem roundDiv_one (tie : Tie) (num : Nat) : roundDiv tie num 1 = num := by
  simpa using roundDiv_of_dvd tie (Nat.one_dvd num) Nat.one_pos

end RowCode
