/-!
# Pieces of a text

The substring functions count characters, never bytes. Lengths and positions are 32-bit integers
of any sign; each is first clamped to the text, so every one of these functions is total.
-/

namespace RowCode.Text

/-- A count clamped to `0 .. len`. -/
def clamp (n : Int) (len : Nat) : Nat :=
  min n.toNat len

/-- The characters at positions `start ..< stop`, counted from zero. -/
def slice (s : List Char) (start stop : Nat) : List Char :=
  (s.drop start).take (stop - start)

/-- The leading `n` characters. -/
def left (s : List Char) (n : Int) : List Char :=
  s.take (clamp n s.length)

/-- The trailing `n` characters. -/
def right (s : List Char) (n : Int) : List Char :=
  s.drop (s.length - clamp n s.length)

/-- All from position `start`, counted from zero. -/
def substr (s : List Char) (start : Int) : List Char :=
  s.drop (clamp start s.length)

/-- The characters at `start ..< stop`; an end before the start selects the rest of the text. -/
def substrTo (s : List Char) (start stop : Int) : List Char :=
  let first := clamp start s.length
  slice s first (if stop < first then s.length else clamp stop s.length)

/-- The place of a one-based position; negative positions count from the end. There is none for
zero and for positions outside the text. -/
def place? (pos : Int) (len : Nat) : Option Nat :=
  if 0 < pos ∧ pos ≤ len then some (pos - 1).toNat
  else if -len ≤ pos ∧ pos < 0 then some (pos + len).toNat
  else none

/-- All from a one-based position. -/
def mid (s : List Char) (pos : Int) : List Char :=
  match place? pos s.length with
  | some start => s.drop start
  | none => []

/-- `count` characters from a one-based position. -/
def midFor (s : List Char) (pos count : Int) : List Char :=
  match place? pos s.length with
  | some start => (s.drop start).take count.toNat
  | none => []

end RowCode.Text
