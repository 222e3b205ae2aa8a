import RowCode.Decimal.Literal
import RowCode.Operand.Text

/-!
# Faults

Why a program cannot be decoded or a run cannot go on. Faults of the code carry the bytes they
are about, faults of the data the type or the value. A `Violation` is a fault that a well-typed
program on a matching row never meets.

`Fault.message` holds the wording of them all.
-/

namespace RowCode

/-- Code, read from the front. -/
abbrev Bytes := List UInt8

/-- A broken assumption about the program or the row. -/
inductive Violation where
  | stackUnderflow
  | operandType (expected : Ty) (got : Operand)
  | variableRange (index arity : Nat)
  | aggregateColumn (index columns : Nat)
  | groupColumn (index columns : Nat)
  /-- The index of the groups leads past the slots. This is not reported: the process ends. -/
  | slotRange (slot slots : Nat)
  | predicateType (got : Operand)
deriving Repr, DecidableEq

/-- Why decoding or running fails. -/
inductive Fault where
  /-- No instruction is written like this; the bytes reach to the end of the code. -/
  | unknownCode (bytes : Bytes)
  /-- The code ends inside a value. -/
  | truncated (bytes : Bytes)
  | invalidString (bytes : Bytes)
  | overflow (ty : Ty)
  | invalidCast (value : String) (target : Ty)
  | unboundRow
  | violation (v : Violation)
deriving Repr, DecidableEq

namespace Violation

def message : Violation → String
  | stackUnderflow => "Operand stack underflow"
  | operandType expected got =>
    "Expected operand of type " ++ expected.name ++ ", got " ++ got.tagged
  | variableRange index arity =>
    "Variable index " ++ toString index ++ " out of range for tuple of arity " ++ toString arity
  | aggregateColumn index columns =>
    "Aggregate reads column " ++ toString index ++ " of tuple with " ++ toString columns ++
      " columns"
  | groupColumn index columns =>
    "Group column " ++ toString index ++ " out of range for tuple with " ++ toString columns ++
      " columns"
  | slotRange slot slots =>
    "index out of bounds: the len is " ++ toString slots ++ " but the index is " ++ toString slot
  | predicateType got => "Filter predicate returned " ++ got.tagged

end Violation

namespace Fault

def hex (bytes : Bytes) : String :=
  String.ofList (Text.hex bytes)

def message : Fault → String
  | unknownCode bytes => "Unknown code in expression, bytes: " ++ hex bytes
  | truncated bytes => "Instruction runs past end of code, bytes: " ++ hex bytes
  | invalidString bytes => "String constant is not valid utf-8, bytes: " ++ hex bytes
  | overflow t => "Value exceeds limits of type " ++ t.name
  | invalidCast value target => "Cannot cast \"" ++ value ++ "\" to " ++ target.name
  | unboundRow => "Indexed variable read without a bound tuple"
  | violation v => "Some assumption was violated. This is a bug: " ++ v.message

/-- The fault of a text that is not accepted as a decimal. -/
def ofRefusal (text : String) : Decimal.Refusal → Fault
  | .malformed => invalidCast text .decimal
  | .unbounded => overflow .decimal

end Fault

/-- Reads a decimal, blaming the text for what goes wrong. -/
def readDecimal (s : String) : Except Fault Decimal :=
  (Decimal.parse s).mapError (Fault.ofRefusal s)

namespace Operand

/-- The plain value of an operand of type `t`, which null is for every `t`. -/
def unwrap (t : Ty) : Operand → Except Fault (Option t.Carrier)
  | none => .ok none
  | some s =>
    match s.carried? t with
    | some v => .ok (some v)
    | none => .error (.violation (.operandType t (some s)))

theorem unwrap_wrap (t : Ty) (v : t.Carrier) : unwrap t (some (t.wrap v)) = .ok (some v) := by
  simp [unwrap, Scalar.carried?_wrap]

end Operand

end RowCode
