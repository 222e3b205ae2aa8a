import RowCode.Text.Blank
import RowCode.Text.Slice

/-!
# Functions of strings

The entries of the function table that work on strings: case and trimming, the pieces taken by
one position or count, and the pieces taken by two.
-/

namespace RowCode

/-- Applies a function of characters to a string. -/
def onChars (f : List Char → List Char) (s : String) : String :=
  String.ofList (f s.toList)

inductive TextFn where
  | lower
  | upper
  | trim
  | ltrim
  | rtrim
deriving Repr, DecidableEq

namespace TextFn

def name : TextFn → String
  | lower => "lower"
  | upper => "upper"
  | trim => "trim"
  | ltrim => "ltrim"
  | rtrim => "rtrim"

def apply : TextFn → String → String
  | lower => onChars (·.map Text.lowerAscii)
  | upper => onChars (·.map Text.upperAscii)
  | trim => onChars (Text.trim Text.isAsciiSpace)
  | ltrim => onChars (Text.trimLeft Text.isAsciiSpace)
  | rtrim => onChars (Text.trimRight Text.isAsciiSpace)

end TextFn

/-- Pieces of a string by one number. -/
inductive CutFn where
  | left
  | right
  | substr
  | mid
deriving Repr, DecidableEq

namespace CutFn

def name : CutFn → String
  | left => "left"
  | right => "right"
  | substr => "substr"
  | mid => "mid"

def apply (f : CutFn) (s : String) (n : Int32) : String :=
  match f with
  | left => onChars (Text.left · n.toInt) s
  | right => onChars (Text.right · n.toInt) s
  | substr => onChars (Text.substr · n.toInt) s
  | mid => onChars (Text.mid · n.toInt) s

end CutFn

/-- Pieces of a string by two numbers. -/
inductive RangeFn where
  | substr
  | mid
deriving Repr, DecidableEq

namespace RangeFn

def name : RangeFn → String
  | substr => "substr"
  | mid => "mid"

def apply (f : RangeFn) (s : String) (m n : Int32) : String :=
  match f with
  | substr => onChars (Text.substrTo · m.toInt n.toInt) s
  | mid => onChars (Text.midFor · m.toInt n.toInt) s

end RangeFn

/-- The operators that put two strings together: `+`, the same under `-`, and `||`. -/
inductive Join where
  | plus
  | minus
  | bars
deriving Repr, DecidableEq

namespace Join

/-- `-` on strings is listed as the `+` that it is. -/
def symbol : Join → String
  | plus => "+"
  | minus => "+"
  | bars => "||"

def apply (_ : Join) (s t : String) : String :=
  s ++ t

end Join

end RowCode
