/-!
# Digits

Reading and writing of natural numbers in base ten, over lists of characters, and bytes in base
sixteen. `digits` writes no superfluous zero, `ofDigits` reads any digit string, and
`ofDigits_digits` says that the one undoes the other.
-/

namespace RowCode.Text

/-- The character of a digit below sixteen. -/
def digitChar (d : Nat) : Char :=
  Char.ofNat (if d < 10 then 48 + d else 55 + d)

def isDigit (c : Char) : Bool :=
  '0' ≤ c && c ≤ '9'

def digitValue (c : Char) : Nat :=
  c.toNat - 48

/-- The decimal digits of `n`, before those already in `rest`. -/
def digitsBefore (n : Nat) (rest : List Char) : List Char :=
  if h : n < 10 then digitChar n :: rest
  else digitsBefore (n / 10) (digitChar (n % 10) :: rest)
termination_by n

/-- A natural number in base ten. -/
def digits (n : Nat) : List Char :=
  digitsBefore n []

/-- The number that a string of digits denotes. -/
def ofDigits (s : List Char) : Nat :=
  s.foldl (fun n c => 10 * n + digitValue c) 0

theorem digitValue_digitChar {d : Nat} (h : d < 10) : digitValue (digitChar d) = d := by
  match d, h with
  | 0, _ | 1, _ | 2, _ | 3, _ | 4, _ | 5, _ | 6, _ | 7, _ | 8, _ | 9, _ => decide

theorem foldl_digitsBefore (n : Nat) (rest : List Char) :
    (digitsBefore n rest).foldl (fun n c => 10 * n + digitValue c) 0 =
      rest.foldl (fun n c => 10 * n + digitValue c) n := by
  fun_induction digitsBefore n rest with
  | case1 n rest h => simp [digitValue_digitChar h]
  | case2 n rest _ ih =>
    rw [ih, List.foldl_cons, digitValue_digitChar (by omega)]
    congr 1
    omega

theorem ofDigits_digits (n : Nat) : ofDigits (digits n) = n := by
  simp [ofDigits, digits, foldl_digitsBefore]

/-- How many decimal digits `n` has; zero has none. -/
def digitCount (n : Nat) : Nat :=
  if n = 0 then 0 else digitCount (n / 10) + 1
termination_by n
decreasing_by omega

/-- Puts the sign in front of the text of a magnitude. -/
def signed (negative : Bool) (s : List Char) : List Char :=
  if negative then '-' :: s else s

/-- An integer in base ten. -/
def ofInt (n : Int) : List Char :=
  signed (n < 0) (digits n.natAbs)

/-- A byte as two upper-case hexadecimal digits. -/
def hexByte (b : UInt8) : List Char :=
  [digitChar (b.toNat / 16), digitChar (b.toNat % 16)]

/-- Bytes in upper-case hexadecimal, two digits each. -/
def hex (bytes : List UInt8) : List Char :=
  bytes.flatMap hexByte

/-- A number in lower-case hexadecimal, without leading zeros. -/
def hexNumber (n : Nat) : List Char :=
  Nat.toDigits 16 n

end RowCode.Text
