import RowCode.Instr

/-!
# Listings

How instructions and programs are shown. An operator is listed with the types it works on, so
that the listing of a program tells its instructions apart.
-/

namespace RowCode

namespace Operator

/-- `name(A)`. -/
def listCall (name : String) (arguments : List Ty) : String :=
  name ++ "(" ++ ", ".intercalate (arguments.map Ty.name) ++ ")"

/-- `A symbol B`. -/
def listInfix (symbol : String) (a b : Ty) : String :=
  a.name ++ " " ++ symbol ++ " " ++ b.name

def listing : Operator → String
  | sign f t => listCall f.name [t.ty]
  | arith op t => listInfix op.symbol t.ty t.ty
  | rem t => listInfix "%" t.ty t.ty
  | join j => listInfix j.symbol .string .string
  | relation r t => listInfix r.symbol t.ty t.ty
  | extreme e t => listInfix e.name t.ty t.ty
  | test q t => listCall q.name [t]
  | not => "not"
  | connective c => c.name
  | cast checked src dst _ =>
    listInfix (if checked then "as checked" else "as") src.ty dst.ty
  | math f => listCall f.name [.float64]
  | text f => listCall f.name [.string]
  | cut f => listInfix f.name .string .int32
  | range f => listCall f.name [.string, .int32, .int32]

end Operator

namespace Instr

def listing : Instr → String
  | null t => "null<" ++ t.ty.name ++ ">"
  | const v => Operand.text (some v)
  | column index t => "$" ++ toString index ++ "<" ++ t.name ++ ">"
  | op o => o.listing

end Instr

def Program.listing (p : Program) : String :=
  "; ".intercalate (p.map Instr.listing)

end RowCode
