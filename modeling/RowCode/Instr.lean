import RowCode.Operator.Basic

/-!
# Instructions and programs

A program is a list of instructions for a stack of operands. Three instructions push an operand:
a typed null, a constant, or a column of the row the program runs on. All others are operators,
which replace their arguments by their result.
-/

namespace RowCode

inductive Instr where
  /-- A null that is announced as one of type `t`. -/
  | null (t : ValueTy)
  | const (v : Scalar)
  /-- A column of the row, announced as one of type `t`. -/
  | column (index : Nat) (t : Ty)
  | op (o : Operator)
deriving Repr, DecidableEq

abbrev Program := List Instr

namespace Instr

/-- The type announced for what the instruction pushes. -/
def result : Instr → Ty
  | null t => t.ty
  | const v => v.ty
  | column _ t => t
  | op o => o.result

end Instr

/-- The type announced by the last instruction; an empty program gives null. -/
def Program.result (p : Program) : Ty :=
  match p.getLast? with
  | some i => i.result
  | none => .null

end RowCode
