/-!
# Blanks around a text, and letter case

Two notions of blank are in use. A text that is read as a number may be surrounded by any Unicode
white space (`isSpace`). The trimming functions of the language itself remove only the five ASCII
blanks (`isAsciiSpace`), and its case functions change only ASCII letters.
-/

namespace RowCode.Text

/-- The characters with the Unicode property White_Space. -/
def isSpace (c : Char) : Bool :=
  let n := c.toNat
  (0x09 ≤ n && n ≤ 0x0D) || n == 0x20 || n == 0x85 || n == 0xA0 || n == 0x1680 ||
    (0x2000 ≤ n && n ≤ 0x200A) || n == 0x2028 || n == 0x2029 || n == 0x202F ||
    n == 0x205F || n == 0x3000

/-- Space, tab, line feed, form feed and carriage return. -/
def isAsciiSpace (c : Char) : Bool :=
  c == ' ' || c == '\t' || c == '\n' || c == '\x0c' || c == '\r'

def trimLeft (blank : Char → Bool) (s : List Char) : List Char :=
  s.dropWhile blank

def trimRight (blank : Char → Bool) (s : List Char) : List Char :=
  (s.reverse.dropWhile blank).reverse

def trim (blank : Char → Bool) (s : List Char) : List Char :=
  trimRight blank (trimLeft blank s)

/-- The text without the Unicode white space around it, as readers of numbers see it. -/
def stripped (s : String) : List Char :=
  trim isSpace s.toList

def lowerAscii (c : Char) : Char :=
  if 'A' ≤ c ∧ c ≤ 'Z' then Char.ofNat (c.toNat + 32) else c

def upperAscii (c : Char) : Char :=
  if 'a' ≤ c ∧ c ≤ 'z' then Char.ofNat (c.toNat - 32) else c

end RowCode.Text
