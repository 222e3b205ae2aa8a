import RowCode.Operator.Basic

/-!
# Opcodes

Which bytes select which operator. Three kinds of opcode are followed by one more byte: a typed
opcode by the code of the type it works on, a cast by the codes of both types, and the function
opcode by the number of a function. The connectives stand alone.

A typed opcode selects a *family*, that is, at most one operator for each type.
-/

namespace RowCode.Opcode

/-- At most one operator for each type. -/
abbrev Family := Ty → Option Operator

def onNumber (op : NumTy → Operator) : Family :=
  fun t => (NumTy.ofTy? t).map op

def onInteger (op : IntTy → Operator) : Family :=
  fun t => (IntTy.ofTy? t).map op

def onValue (op : ValueTy → Operator) : Family :=
  fun t => (ValueTy.ofTy? t).map op

def onAny (op : Ty → Operator) : Family :=
  fun t => some (op t)

/-- Arithmetic on numbers; strings are joined. -/
def onNumberOrString (op : ArithOp) (j : Join) : Family :=
  fun t => if t = .string then some (.join j) else onNumber (.arith op) t

/-- The family of a typed opcode. -/
def family? (opcode : UInt8) : Option Family :=
  match opcode with
  | 0x81 => some (onNumber (.sign .pos))
  | 0x82 => some (onNumber (.sign .neg))
  | 0x83 => some (onNumberOrString .add .plus)
  | 0x84 => some (onNumberOrString .sub .minus)
  | 0x85 => some (onNumber (.arith .mul))
  | 0x86 => some (onNumber (.arith .div))
  | 0x87 => some (onInteger .rem)
  | 0x91 => some (onValue (.relation .eq))
  | 0x92 => some (onValue (.relation .ge))
  | 0x93 => some (onValue (.relation .gt))
  | 0x94 => some (onValue (.relation .le))
  | 0x95 => some (onValue (.relation .lt))
  | 0x96 => some (onValue (.relation .ne))
  | 0xA1 => some (onAny (.test .isNull))
  | 0xA2 => some (onAny (.test .isTrue))
  | 0xA3 => some (onAny (.test .isFalse))
  | 0xB1 => some (onValue (.extreme .min))
  | 0xB2 => some (onValue (.extreme .max))
  | 0xB3 => some (onNumber (.sign .abs))
  | 0xB4 => some (onNumber (.sign .absCheck))
  | _ => none

/-- The operators that are a single byte. -/
def connective? (opcode : UInt8) : Option Operator :=
  match opcode with
  | 0x51 => some .not
  | 0x52 => some (.connective .and)
  | 0x53 => some (.connective .or)
  | _ => none

/-- The numbered functions. -/
def function? (number : UInt8) : Option Operator :=
  match number with
  | 0x01 => some (.math .ceil)
  | 0x02 => some (.math .floor)
  | 0x07 => some (.math .sin)
  | 0x08 => some (.math .cos)
  | 0x09 => some (.math .tan)
  | 0x0A => some (.math .asin)
  | 0x0B => some (.math .acos)
  | 0x0C => some (.math .atan)
  | 0x0D => some (.math .sinh)
  | 0x0E => some (.math .cosh)
  | 0x0F => some (.math .tanh)
  | 0x10 => some (.math .exp)
  | 0x11 => some (.math .log)
  | 0x21 => some (.join .bars)
  | 0x22 => some (.text .lower)
  | 0x23 => some (.text .upper)
  | 0x24 => some (.cut .left)
  | 0x25 => some (.cut .right)
  | 0x26 => some (.text .trim)
  | 0x28 => some (.text .ltrim)
  | 0x2A => some (.text .rtrim)
  | 0x2C => some (.range .substr)
  | 0x2D => some (.cut .substr)
  | 0x2E => some (.range .mid)
  | 0x2F => some (.cut .mid)
  | _ => none

/-- The cast between two types, if it is defined. -/
def cast? (checked : Bool) (dst src : Ty) : Option Operator :=
  match ValueTy.ofTy? src, ValueTy.ofTy? dst with
  | some src, some dst =>
    if defined : Cast.Defined src dst then some (.cast checked src dst defined) else none
  | _, _ => none

/-- The opcodes of the plain and of the checked cast, and of the function table. -/
def castPlain : UInt8 := 0xF0

def castChecked : UInt8 := 0xFC

def function : UInt8 := 0xF1

/-- The byte that ends an expression. -/
def stop : UInt8 := 0x00

end RowCode.Opcode
