import RowCode.Operand.Basic
import RowCode.Binary.Literal
import RowCode.Text.Blank

/-!
# Truth values

Connectives are three-valued: a null stands for a truth value that is not known, and the result is
known as soon as one operand settles it. Tests ask about an operand, null or not, and always have
an answer. A number is true unless it is zero, and a string is read as a number first.
-/

namespace RowCode

namespace Truth

def not : Option Bool → Option Bool
  | some b => some !b
  | none => none

def and : Option Bool → Option Bool → Option Bool
  | some false, _ => some false
  | _, some false => some false
  | some true, some true => some true
  | _, _ => none

def or : Option Bool → Option Bool → Option Bool
  | some true, _ => some true
  | _, some true => some true
  | some false, some false => some false
  | _, _ => none

end Truth

inductive Connective where
  | and
  | or
deriving Repr, DecidableEq

namespace Connective

def name : Connective → String
  | and => "and"
  | or => "or"

def apply : Connective → Option Bool → Option Bool → Option Bool
  | and => Truth.and
  | or => Truth.or

end Connective

/-- A string counts as the double it denotes, and as false if it denotes none. -/
def textIsTrue (s : String) : Bool :=
  match (Binary.read? (Text.stripped s) : Option Double) with
  | some x => !x.isZero
  | none => false

/-- Whether a value counts as true. -/
def Ty.isTrue : (t : Ty) → t.Carrier → Bool
  | .null, v => nomatch v
  | .int32, n => n != 0
  | .int64, n => n != 0
  | .bool, b => b
  | .float32, x => !x.isZero
  | .float64, x => !x.isZero
  | .decimal, d => !d.isZero
  | .string, s => textIsTrue s

inductive Test where
  | isNull
  | isTrue
  | isFalse
deriving Repr, DecidableEq

namespace Test

def name : Test → String
  | isNull => "is_null"
  | isTrue => "is_true"
  | isFalse => "is_false"

/-- The answer for an operand of type `t`; a null is neither true nor false. -/
def apply (q : Test) (t : Ty) (v : Option t.Carrier) : Bool :=
  match q, v with
  | isNull, v => v.isNone
  | isTrue, some v => t.isTrue v
  | isFalse, some v => !t.isTrue v
  | _, none => false

end Test

end RowCode
