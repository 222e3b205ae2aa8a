import RowCode.Decimal.Convert
import RowCode.Decimal.Text
import RowCode.Json.Token
import RowCode.Operand.Basic
import RowCode.Operator.Arithmetic
import RowCode.Text.Quoted

/-!
# Rows in JSON

A row is a JSON array of operands. Null is the string `"Null"`; any other operand is an object
with one member, whose name is the type and whose value is the value: a number, a truth value, a
string, or for decimals the text of the pair. A float that is not finite has no number in JSON and
is written as `null`, which does not read back.

Reading is somewhat wider than writing: blanks may stand between tokens, a float may be written as
an integer, a decimal as a number, and null as an object like the others. A decimal may also be
wrapped into an object whose one member is named `numberKey`, and that again, as long as brackets
do not nest deeper than `maxNesting`.
-/

namespace RowCode.Json

/-- The name of a type in JSON. -/
def typeName : Ty → String
  | .null => "Null"
  | .int32 => "Int32"
  | .int64 => "Int64"
  | .bool => "Bool"
  | .float32 => "Float32"
  | .float64 => "Float64"
  | .decimal => "Decimal"
  | .string => "String"

def typeOfName? (name : List Char) : Option Ty :=
  Ty.all.find? fun t => (typeName t).toList = name

/-! ## Writing -/

def writeFloat {f : Format} (x : Binary f) : List Char :=
  if x.isFinite then x.text (.interchange f) else "null".toList

def writeValue : Scalar → List Char
  | .int32 n => Text.ofInt n.toInt
  | .int64 n => Text.ofInt n.toInt
  | .bool b => (if b then "true" else "false").toList
  | .float32 x => writeFloat x
  | .float64 x => writeFloat x
  | .decimal d => Text.exchangeQuoted d.exchangeText
  | .string s => Text.exchangeQuoted s.toList

def writeType (t : Ty) : List Char :=
  Text.exchangeQuoted (typeName t).toList

def writeOperand : Operand → List Char
  | none => writeType .null
  | some v => '\x7b' :: writeType v.ty ++ ':' :: writeValue v ++ ['\x7d']

def writeList (items : List (List Char)) : List Char :=
  '[' :: List.intercalate [','] items ++ [']']

def writeRow (row : Row) : String :=
  String.ofList (writeList (row.map writeOperand))

def writeTypes (ts : List Ty) : String :=
  String.ofList (writeList (ts.map writeType))

/-! ## Reading -/

/-- An integer written as an integer. -/
def readInteger? {α : Type} (w : Window α) : Token → Option α
  | .number (.integer n) => w.member? n
  | _ => none

/-- A float written as any number. Fractions are rounded to a double first. -/
def readFloat? {f : Format} : Token → Option (Binary f)
  | .number (.integer n) => some (.ofInt n)
  | .number (.real x) => some x.convert
  | _ => none

/-- The name of the member that wraps a decimal. It must be written without escapes. -/
def numberKey : List Char :=
  "$serde_json::private::Number".toList

/-- How deeply brackets may nest. -/
def maxNesting : Nat := 127

/-- A decimal at the front: a text, any number, or an object that wraps one of these, with at most
`room` objects around it. Neither text nor number is held to the bound on exponents. -/
def readDecimal? : (room : Nat) → List Token → Option (Decimal × List Token)
  | _, .string s _ :: ts => (Decimal.readPair? s).map fun d => (d, ts)
  | _, .number (.integer n) :: ts => some (.ofInt n, ts)
  | _, .number (.real x) :: ts => some (.ofBinaryExact x, ts)
  | room + 1, .openBrace :: .string name true :: .colon :: ts =>
    if name = numberKey then
      match readDecimal? room ts with
      | some (d, .closeBrace :: ts) => some (d, ts)
      | _ => none
    else none
  | _, _ => none

/-- The operand of a type that a single token stands for. -/
def valueOf? (t : Ty) (v : Token) : Option Operand :=
  match t, v with
  | .null, .null => some none
  | .int32, v => (readInteger? .int32 v).map fun n => some (.int32 n)
  | .int64, v => (readInteger? .int64 v).map fun n => some (.int64 n)
  | .bool, .bool b => some (some (.bool b))
  | .float32, v => (readFloat? v).map fun x => some (.float32 x)
  | .float64, v => (readFloat? v).map fun x => some (.float64 x)
  | .string, .string s _ => some (some (.string (String.ofList s)))
  | _, _ => none

/-- The operand of a type at the front. Two brackets are open around it, that of the row and that
of the object with its type. -/
def readValue? (t : Ty) (ts : List Token) : Option (Operand × List Token) :=
  match t, ts with
  | .decimal, ts => (readDecimal? (maxNesting - 2) ts).map fun (d, ts) => (some (.decimal d), ts)
  | t, v :: ts => (valueOf? t v).map fun v => (v, ts)
  | _, [] => none

/-- The operand at the front. -/
def readOperand? : List Token → Option (Operand × List Token)
  | .string name _ :: ts => if typeOfName? name = some .null then some (none, ts) else none
  | .openBrace :: .string name _ :: .colon :: ts => do
    let t ← typeOfName? name
    match ← readValue? t ts with
    | (v, .closeBrace :: ts) => some (v, ts)
    | _ => none
  | _ => none

/-- Operands and commas up to the bracket that closes the row, which is the end of the text. -/
def readOperands? : (fuel : Nat) → List Token → Option Row
  | 0, _ => none
  | fuel + 1, ts => do
    let (v, ts) ← readOperand? ts
    match ts with
    | [.closeBracket] => some [v]
    | .comma :: ts =>
      let row ← readOperands? fuel ts
      some (v :: row)
    | _ => none

/-- Reads a row. -/
def readRow? (s : String) : Option Row := do
  match ← tokens? s with
  | [.openBracket, .closeBracket] => some []
  | .openBracket :: ts => readOperands? ts.length ts
  | _ => none

/-- Reads a type: its name, alone or with a null. -/
def readType? (s : String) : Option Ty := do
  match ← tokens? s with
  | [.string name _] => typeOfName? name
  | [.openBrace, .string name _, .colon, .null, .closeBrace] => typeOfName? name
  | _ => none

end RowCode.Json
