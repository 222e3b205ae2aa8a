import RowCode.Binary.Round
import RowCode.Text.Digits

/-!
# The fewest digits that read back

A float is written with the fewest decimal digits from which it can be recovered: reading them
and rounding to the nearest float gives the same float. Among the texts of that length the one
nearest to the exact value is taken.

For each count of digits only two candidates matter, the neighbours of the exact value on the
grid of numbers with that many digits. They are tried in exact arithmetic, from one digit on. The
exact value itself, which has finitely many digits, always reads back, so the search cannot come
back empty.
-/

namespace RowCode

/-- A decimal number `digits * 10 ^ exponent`. -/
structure Figures where
  digits : Nat
  exponent : Int
deriving Repr, DecidableEq

namespace Figures

/-- Moves the factors ten of the digits into the exponent. -/
def trimmed (n : Nat) (e : Int) : Figures :=
  if n = 0 then ⟨0, 0⟩
  else if n % 10 = 0 then trimmed (n / 10) (e + 1)
  else ⟨n, e⟩
termination_by n
decreasing_by omega

end Figures

/-- The `k` with `10 ^ (k - 1) ≤ num / den < 10 ^ k`. -/
def decimalOrder (num den : Nat) : Int :=
  if den ≤ num then Text.digitCount (num / den)
  else 1 - Text.digitCount ((den - 1) / num)

namespace Format

/-- Whether `n * 10 ^ e` rounds to this magnitude. -/
def readsBack (f : Format) (magnitude n : Nat) (e : Int) : Bool :=
  f.nearest (n * 10 ^ e.toNat) (10 ^ (-e).toNat) = magnitude

/-- The better of the two neighbours of `num / den` on the grid of multiples of `10 ^ e`, among
those that read back. -/
def neighbour? (f : Format) (tie : Tie) (magnitude num den : Nat) (e : Int) : Option Figures :=
  let num := num * 10 ^ (-e).toNat
  let den := den * 10 ^ e.toNat
  let low := num / den
  let near := roundDiv tie num den
  let far := if near = low then low + 1 else low
  if f.readsBack magnitude near e then some (.trimmed near e)
  else if f.readsBack magnitude far e then some (.trimmed far e)
  else none

/-- The value of a magnitude with all its digits. -/
def exactFigures (f : Format) (magnitude : Nat) : Figures :=
  let (m, e) := f.scaled magnitude
  if 0 ≤ e then .trimmed (m * 2 ^ e.toNat) 0 else .trimmed (m * 5 ^ (-e).toNat) e

/-- No float of either format needs more digits than this. -/
def enoughDigits : Nat := 17

/-- The fewest digits that read back as a positive finite magnitude. -/
def shortest (f : Format) (tie : Tie) (magnitude : Nat) : Figures :=
  let (m, e) := f.scaled magnitude
  let num := m * 2 ^ e.toNat
  let den := 2 ^ (-e).toNat
  let order := decimalOrder num den
  let found := (List.range enoughDigits).findSome? fun i =>
    f.neighbour? tie magnitude num den (order - (i + 1 : Nat))
  found.getD (f.exactFigures magnitude)

end Format

end RowCode
