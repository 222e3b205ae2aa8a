import RowCode.Instr

/-!
# Running programs

A run takes a program instruction by instruction over a stack of operands. An operator pops its
arguments, the last one first, checking the type of each as it comes, and pushes one result.

A run that fails stops at once. What is left on the stack at that moment is part of the outcome
(`Halt.left`): whatever the failing instruction had popped is gone.
-/

namespace RowCode

/-- Operands of a run, the top first. -/
abbrev Stack := List Operand

/-- A run that could not go on, with the stack as it was left. -/
structure Halt where
  fault : Fault
  left : Stack
deriving Repr, DecidableEq

/-- Takes an operand of type `t` off the stack. -/
def popAs (t : Ty) : Stack → Except Halt (Option t.Carrier × Stack)
  | [] => .error ⟨.violation .stackUnderflow, []⟩
  | v :: rest =>
    match v.unwrap t with
    | .ok x => .ok (x, rest)
    | .error e => .error ⟨e, rest⟩

/-- Puts the result of a computation on the stack. -/
def push (t : Ty) (rest : Stack) : Except Fault (Option t.Carrier) → Except Halt Stack
  | .ok x => .ok (x.map t.wrap :: rest)
  | .error e => .error ⟨e, rest⟩

namespace Kernel

def apply : Kernel → Stack → Except Halt Stack
  | strict1 a r f, stack => do
    let (x, stack) ← popAs a stack
    push r stack <| match x with
      | some x => f x
      | none => .ok none
  | strict2 a b r f, stack => do
    let (y, stack) ← popAs b stack
    let (x, stack) ← popAs a stack
    push r stack <| match x, y with
      | some x, some y => f x y
      | _, _ => .ok none
  | strict3 a b c r f, stack => do
    let (z, stack) ← popAs c stack
    let (y, stack) ← popAs b stack
    let (x, stack) ← popAs a stack
    push r stack <| match x, y, z with
      | some x, some y, some z => f x y z
      | _, _, _ => .ok none
  | lenient1 a r f, stack => do
    let (x, stack) ← popAs a stack
    push r stack (.ok (f x))
  | lenient2 a b r f, stack => do
    let (y, stack) ← popAs b stack
    let (x, stack) ← popAs a stack
    push r stack (.ok (f x y))

end Kernel

/-- The column of the row that a program is bound to. -/
def readColumn (row : Option Row) (index : Nat) : Except Fault Operand :=
  match row with
  | none => .error .unboundRow
  | some row =>
    match row[index]? with
    | some v => .ok v
    | none => .error (.violation (.variableRange index row.length))

namespace Instr

/-- One step of a run. -/
def step (row : Option Row) (stack : Stack) : Instr → Except Halt Stack
  | null _ => .ok (none :: stack)
  | const v => .ok (some v :: stack)
  | column index _ =>
    match readColumn row index with
    | .ok v => .ok (v :: stack)
    | .error e => .error ⟨e, stack⟩
  | op o => o.kernel.apply stack

end Instr

namespace Program

/-- Runs a program on top of a stack. -/
def runOn (row : Option Row) : Program → Stack → Except Halt Stack
  | [], stack => .ok stack
  | i :: p, stack => do
    let stack ← i.step row stack
    runOn row p stack

/-- Runs a program. -/
def run (p : Program) (row : Option Row) : Except Halt Stack :=
  runOn row p []

/-- The operand on top of a stack; an empty stack gives null. -/
def top (stack : Stack) : Operand :=
  stack.head?.getD none

/-- The result of a program on a row. -/
def eval (p : Program) (row : Row) : Except Fault Operand :=
  match p.run (some row) with
  | .ok stack => .ok (top stack)
  | .error halt => .error halt.fault

/-- All results of a program on a row, in the order in which they were pushed. -/
def evalAll (p : Program) (row : Row) : Except Fault Row :=
  match p.run (some row) with
  | .ok stack => .ok stack.reverse
  | .error halt => .error halt.fault

end Program

end RowCode
