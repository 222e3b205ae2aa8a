import RowCode.Code.Program
import RowCode.Machine

/-!
# Runners

A runner holds a program, the row it is bound to, and the stack of its last run, and is driven
call by call. Each call touches one part: decoding replaces the program (a code that fails to
decode leaves an empty one), binding replaces the row, running replaces the stack.
-/

namespace RowCode

structure Runner where
  program : Program
  bound : Option Row
  stack : Stack
deriving Repr, DecidableEq

namespace Runner

def new : Runner := ⟨[], none, []⟩

/-- Replaces the program. Gives the number of bytes it took. -/
def decode (r : Runner) (code : Bytes) : Except Fault Nat × Runner :=
  match Code.readProgram code with
  | .ok (p, rest) => (.ok (code.length - rest.length), { r with program := p })
  | .error e => (.error e, { r with program := [] })

/-- Binds a row and gives back the one that was bound. -/
def bind (r : Runner) (row : Row) : Option Row × Runner :=
  (r.bound, { r with bound := some row })

def unbind (r : Runner) : Option Row × Runner :=
  (r.bound, { r with bound := none })

def run (r : Runner) : Except Fault Unit × Runner :=
  match r.program.run r.bound with
  | .ok stack => (.ok (), { r with stack })
  | .error halt => (.error halt.fault, { r with stack := halt.left })

/-- The operand on top of the stack. -/
def get (r : Runner) : Operand :=
  Program.top r.stack

/-- The operand on top of the stack, as one of type `t`. -/
def getAs (r : Runner) (t : Ty) : Except Fault (Option t.Carrier) :=
  r.get.unwrap t

/-- The operands on the stack, the first one pushed first. -/
def getAll (r : Runner) : Row :=
  r.stack.reverse

/-- Takes all operands off the stack. -/
def takeAll (r : Runner) : Row × Runner :=
  (r.getAll, { r with stack := [] })

/-- Binds a row, runs the program and unbinds the row again, also after a failure. -/
def eval (r : Runner) (row : Row) : Except Fault (Operand × Row) × Runner :=
  let (_, r) := r.bind row
  let (outcome, r) := r.run
  let (row, r) := r.unbind
  (outcome.map fun _ => (r.get, row.getD []), r)

/-- The type announced for the result of the program. -/
def result (r : Runner) : Ty :=
  r.program.result

end Runner

end RowCode
