import RowCode.Operand.Basic
import RowCode.Binary.Text
import RowCode.Decimal.Text
import RowCode.Text.Quoted

/-!
# Texts of operands

`Operand.text` is the form used in listings of programs and rows: a mark behind the number tells
64-bit integers, single floats and decimals apart, and strings stand between quotes as they are.
`Operand.tagged` is the form for diagnostics: the type as a word, and strings with escapes.
-/

namespace RowCode

namespace Scalar

def text : Scalar → List Char
  | int32 n => Text.ofInt n.toInt
  | int64 n => Text.ofInt n.toInt ++ ['L']
  | bool b => (if b then "true" else "false").toList
  | float32 x => x.text .plain ++ ['f']
  | float64 x => x.text .plain
  | decimal d => d.text ++ ['M']
  | string s => '"' :: s.toList ++ ['"']

def tagged : Scalar → List Char
  | int32 n => "Int32(".toList ++ Text.ofInt n.toInt ++ [')']
  | int64 n => "Int64(".toList ++ Text.ofInt n.toInt ++ [')']
  | bool b => "Bool(".toList ++ (if b then "true" else "false").toList ++ [')']
  | float32 x => "Float32(".toList ++ x.text .tagged ++ [')']
  | float64 x => "Float64(".toList ++ x.text .tagged ++ [')']
  | decimal d => "Decimal(".toList ++ d.tagged ++ [')']
  | string s => "String(".toList ++ Text.quoted s.toList ++ [')']

end Scalar

namespace Operand

def text : Operand → String
  | none => "null"
  | some v => String.ofList v.text

def tagged : Operand → String
  | none => "Null"
  | some v => String.ofList v.tagged

end Operand

/-- A row between parentheses. -/
def Row.text (row : Row) : String :=
  "(" ++ ", ".intercalate (row.map Operand.text) ++ ")"

end RowCode
