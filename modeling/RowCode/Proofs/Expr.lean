import RowCode.Pipeline.Session
import RowCode.Proofs.Code.Word
import RowCode.Runner

/-!
# Expressions

The trees that programs are written for. An expression is evaluated by
recursion (`Expr.eval`), each node by one call of its operator on the values of
its arguments (`Kernel.call`), and is written in post-order (`Expr.words`).

`runOn_program` says that running the program of an expression comes to
evaluating it: with any stack below and any program behind, the run goes on
with the value on the stack, or fails with the fault of the evaluation. From
there the theorems about whole codes need only the reading of words.
-/

namespace RowCode

/-! ## Calls of operators -/

namespace Kernel

/-- The result for given arguments, the first one first. Their types are
checked from the last one on; a strict function has a value only where none of
them is null. -/
def call : Kernel → List Operand → Except Fault Operand
  | strict1 a r f, [x] => do
    match ← x.unwrap a with
    | some x => Option.map r.wrap <$> f x
    | none => .ok none
  | strict2 a b r f, [x, y] => do
    let y ← y.unwrap b
    let x ← x.unwrap a
    match x, y with
    | some x, some y => Option.map r.wrap <$> f x y
    | _, _ => .ok none
  | strict3 a b c r f, [x, y, z] => do
    let z ← z.unwrap c
    let y ← y.unwrap b
    let x ← x.unwrap a
    match x, y, z with
    | some x, some y, some z => Option.map r.wrap <$> f x y z
    | _, _, _ => .ok none
  | lenient1 a r f, [x] => do
    let x ← x.unwrap a
    .ok ((f x).map r.wrap)
  | lenient2 a b r f, [x, y] => do
    let y ← y.unwrap b
    let x ← x.unwrap a
    .ok ((f x y).map r.wrap)
  | _, _ => .error (.violation .stackUnderflow)

end Kernel

/-- The outcome of a run without what was left on the stack. -/
def faultOnly {α : Type} : Except Halt α → Except Fault α :=
  Except.mapError Halt.fault

theorem faultOnly_eq_ok {α : Type} {x : Except Halt α} {a : α} :
    faultOnly x = .ok a ↔ x = .ok a := by
  cases x with
  | ok b =>
      constructor
      · intro h
        rw [Except.ok.inj h]
      · intro h
        rw [h]
        rfl
  | error halt => exact iff_of_false nofun nofun

theorem faultOnly_eq_error {α : Type} {x : Except Halt α} {f : Fault} :
    faultOnly x = .error f ↔ ∃ halt, x = .error halt ∧ halt.fault = f := by
  cases x with
  | ok b => exact iff_of_false nofun nofun
  | error halt =>
      constructor
      · intro h
        exact ⟨halt, rfl, Except.error.inj h⟩
      · rintro ⟨_, ⟨⟩, rfl⟩
        rfl

theorem faultOnly_bind {α β : Type} (x : Except Halt α) (f : α → Except Halt β) :
    faultOnly (x >>= f) = faultOnly x >>= fun a => faultOnly (f a) := by
  cases x <;> rfl

theorem faultOnly_push (t : Ty) (stack : Stack) (x : Except Fault (Option t.Carrier)) :
    faultOnly (push t stack x) = (Option.map t.wrap <$> x).map (· :: stack) := by
  cases x <;> rfl

theorem faultOnly_popAs_bind {α : Type} (t : Ty) (v : Operand) (stack : Stack)
    (f : Option t.Carrier × Stack → Except Halt α) :
    faultOnly (popAs t (v :: stack) >>= f) =
      v.unwrap t >>= fun x => faultOnly (f (x, stack)) := by
  rw [popAs]
  cases v.unwrap t <;> rfl

theorem map_bind_except {ε α β γ : Type} (x : Except ε α) (f : α → Except ε β) (g : β → γ) :
    (x >>= f).map g = x >>= fun a => (f a).map g := by
  cases x <;> rfl

namespace Kernel

/-- An operator finds its arguments on the stack, the last one on top. -/
theorem faultOnly_apply (stack : Stack) : ∀ (k : Kernel) (args : List Operand),
    args.length = k.arguments.length →
      faultOnly (k.apply (args.reverse ++ stack)) = (k.call args).map (· :: stack)
  | strict1 a r f, [x], _ => by
      refine (faultOnly_popAs_bind a x stack _).trans ?_
      rw [call, map_bind_except]
      congr 1
      funext x
      rw [faultOnly_push]
      cases x <;> rfl
  | strict2 a b r f, [x, y], _ => by
      refine (faultOnly_popAs_bind b y (x :: stack) _).trans ?_
      rw [call, map_bind_except]
      congr 1
      funext y
      refine (faultOnly_popAs_bind a x stack _).trans ?_
      rw [map_bind_except]
      congr 1
      funext x
      rw [faultOnly_push]
      cases x <;> cases y <;> rfl
  | strict3 a b c r f, [x, y, z], _ => by
      refine (faultOnly_popAs_bind c z (y :: x :: stack) _).trans ?_
      rw [call, map_bind_except]
      congr 1
      funext z
      refine (faultOnly_popAs_bind b y (x :: stack) _).trans ?_
      rw [map_bind_except]
      congr 1
      funext y
      refine (faultOnly_popAs_bind a x stack _).trans ?_
      rw [map_bind_except]
      congr 1
      funext x
      rw [faultOnly_push]
      cases x <;> cases y <;> cases z <;> rfl
  | lenient1 a r f, [x], _ => by
      refine (faultOnly_popAs_bind a x stack _).trans ?_
      rw [call, map_bind_except]
      rfl
  | lenient2 a b r f, [x, y], _ => by
      refine (faultOnly_popAs_bind b y (x :: stack) _).trans ?_
      rw [call, map_bind_except]
      congr 1
      funext y
      refine (faultOnly_popAs_bind a x stack _).trans ?_
      rw [map_bind_except]
      rfl

end Kernel

/-! ## Trees -/

/-- How many arguments an operator takes. -/
def Operator.arity (op : Operator) : Nat :=
  op.kernel.arguments.length

/-- Constants and column indices are kept as they are written, so that a tree
has a code of its own. `Literal.exists_value_iff` and `Varint.exists_value` say
which values they can take. -/
inductive Expr where
  | null (t : ValueTy)
  | const (l : Code.Literal)
  | column (index : Code.Varint) (t : Ty)
  /-- A cast from a type to itself. -/
  | same (checked : Bool) (t : Ty) (a : Expr)
  | op1 (f : Operator) (arity : f.arity = 1) (a : Expr)
  | op2 (f : Operator) (arity : f.arity = 2) (a b : Expr)
  | op3 (f : Operator) (arity : f.arity = 3) (a b c : Expr)

namespace Expr

/-- The value on a row: arguments first, from the first one on, then the
operator. -/
def eval (row : Option Row) : Expr → Except Fault Operand
  | null _ => .ok none
  | const l => .ok (some l.value)
  | column index _ => readColumn row index.value.toNat
  | same _ _ a => a.eval row
  | op1 f _ a => do
    let x ← a.eval row
    f.kernel.call [x]
  | op2 f _ a b => do
    let x ← a.eval row
    let y ← b.eval row
    f.kernel.call [x, y]
  | op3 f _ a b c => do
    let x ← a.eval row
    let y ← b.eval row
    let z ← c.eval row
    f.kernel.call [x, y, z]

/-- The tree in post-order. -/
def words : Expr → List Code.Word
  | null t => [.null t]
  | const l => [.const l]
  | column index t => [.column index t]
  | same checked t a => a.words ++ [.same checked t]
  | op1 f _ a => a.words ++ [.op f]
  | op2 f _ a b => a.words ++ (b.words ++ [.op f])
  | op3 f _ a b c => a.words ++ (b.words ++ (c.words ++ [.op f]))

def code (e : Expr) : Bytes :=
  e.words.flatMap Code.Word.bytes

/-- The instructions that the code is read as. -/
def program (e : Expr) : Program :=
  e.words.filterMap Code.Word.instr?

/-! ## Running trees -/

/-- An operator behind its arguments. -/
theorem runOn_op {row : Option Row} {f : Operator} {args : List Operand}
    (harity : args.length = f.arity) (p : Program) (stack : Stack) :
    faultOnly (Program.runOn row (.op f :: p) (args.reverse ++ stack)) =
      f.kernel.call args >>= fun v => faultOnly (Program.runOn row p (v :: stack)) := by
  rw [Program.runOn, faultOnly_bind, Instr.step, Kernel.faultOnly_apply stack f.kernel args harity]
  cases f.kernel.call args <;> rfl

/-- Running an expression puts its value on the stack. -/
theorem runOn_program (row : Option Row) : ∀ (e : Expr) (p : Program) (stack : Stack),
    faultOnly (Program.runOn row (e.program ++ p) stack) =
      e.eval row >>= fun v => faultOnly (Program.runOn row p (v :: stack))
  | null t, p, stack => rfl
  | const l, p, stack => rfl
  | column index t, p, stack => by
      show faultOnly (Instr.step row stack (.column index.value.toNat t) >>= _) = _
      rw [faultOnly_bind, Instr.step, eval]
      cases readColumn row index.value.toNat <;> rfl
  | same checked t a, p, stack => by
      have hprogram : (same checked t a).program = a.program := by
        simp [program, words, Code.Word.instr?]
      rw [hprogram, runOn_program row a, eval]
  | op1 f arity a, p, stack => by
      have hprogram : (op1 f arity a).program ++ p = a.program ++ (.op f :: p) := by
        simp [program, words, Code.Word.instr?]
      rw [hprogram, runOn_program row a, eval, bind_assoc]
      congr 1
      funext x
      exact runOn_op (show [x].length = f.arity from arity.symm) p stack
  | op2 f arity a b, p, stack => by
      have hprogram : (op2 f arity a b).program ++ p =
          a.program ++ (b.program ++ (.op f :: p)) := by
        simp [program, words, Code.Word.instr?]
      rw [hprogram, runOn_program row a, eval, bind_assoc]
      congr 1
      funext x
      rw [runOn_program row b, bind_assoc]
      congr 1
      funext y
      exact runOn_op (show [x, y].length = f.arity from arity.symm) p stack
  | op3 f arity a b c, p, stack => by
      have hprogram : (op3 f arity a b c).program ++ p =
          a.program ++ (b.program ++ (c.program ++ (.op f :: p))) := by
        simp [program, words, Code.Word.instr?]
      rw [hprogram, runOn_program row a, eval, bind_assoc]
      congr 1
      funext x
      rw [runOn_program row b, bind_assoc]
      congr 1
      funext y
      rw [runOn_program row c, bind_assoc]
      congr 1
      funext z
      exact runOn_op (show [x, y, z].length = f.arity from arity.symm) p stack

/-! ## Lists of trees -/

/-- Running expressions one behind the other puts their values on the stack. -/
theorem run_programs (row : Option Row) : ∀ (es : List Expr) (stack : Stack),
    faultOnly (Program.runOn row (es.flatMap program) stack) =
      (es.mapM (eval row)).map fun values => values.reverse ++ stack
  | [], stack => rfl
  | e :: es, stack => by
      rw [List.flatMap_cons, runOn_program, List.mapM_cons]
      cases e.eval row with
      | error f => rfl
      | ok v =>
          show faultOnly (Program.runOn row (es.flatMap program) (v :: stack)) = _
          rw [run_programs row es]
          cases es.mapM (eval row) with
          | error f => rfl
          | ok values =>
              show Except.ok (values.reverse ++ v :: stack) =
                Except.ok ((v :: values).reverse ++ stack)
              rw [List.reverse_cons, List.append_assoc, List.singleton_append]

/-- The code of expressions up to the stop byte is read as their programs. -/
theorem readProgram_codes (es : List Expr) (rest : Bytes) :
    Code.readProgram (es.flatMap code ++ Opcode.stop :: rest) =
      .ok (es.flatMap program, rest) := by
  have hwords : es.flatMap code = (es.flatMap words).flatMap Code.Word.bytes := by
    rw [List.flatMap_assoc]
    rfl
  rw [hwords, Code.readProgram_words, List.filterMap_flatMap]
  rfl

/-- The code of a list of expressions as it is handed to a runner. -/
def codeOf (es : List Expr) : Bytes :=
  es.flatMap code ++ [Opcode.stop]

/-- The byte of the stage that gives all results of a program. -/
def projectByte : UInt8 := 0x72

/-- The value that a runner of its own gives for one expression. -/
def alone (row : Row) (e : Expr) : Except Fault Operand :=
  ((Runner.new.decode (codeOf [e])).2.eval row).1.map Prod.fst

theorem decode_codeOf (es : List Expr) (r : Runner) :
    r.decode (codeOf es) =
      (.ok (codeOf es).length, { r with program := es.flatMap program }) := by
  rw [Runner.decode, codeOf, readProgram_codes]
  rfl

theorem readStages_codeOf (es : List Expr) :
    Code.readStages (projectByte :: codeOf es) = ([.project (es.flatMap program)], none) := by
  have hstage : Code.readStage projectByte (codeOf es) =
      .ok (.project (es.flatMap program), []) := by
    show (Code.readProgram (codeOf es) >>= fun r => .ok (Stage.project r.1, r.2)) = _
    rw [codeOf, readProgram_codes]
    rfl
  rw [Code.readStages]
  split
  · next e herror =>
    rw [hstage] at herror
    cases herror
  · next s rest hok =>
    rw [hstage] at hok
    cases hok
    rw [Code.readStages]

/-- `run_programs` for a run from the empty stack, which either leaves the
values or fails. -/
theorem run_cases (row : Option Row) (es : List Expr) :
    (∃ values, es.mapM (eval row) = .ok values ∧
      Program.run (es.flatMap program) row = .ok values.reverse) ∨
    ∃ halt, es.mapM (eval row) = .error halt.fault ∧
      Program.run (es.flatMap program) row = .error halt := by
  have hrun := run_programs row es []
  cases hmap : es.mapM (eval row) with
  | ok values =>
      rw [hmap] at hrun
      have hout : Program.runOn row (es.flatMap program) [] = .ok (values.reverse ++ []) :=
        faultOnly_eq_ok.mp hrun
      rw [List.append_nil] at hout
      exact Or.inl ⟨values, rfl, hout⟩
  | error f =>
      rw [hmap] at hrun
      obtain ⟨halt, hout, rfl⟩ := faultOnly_eq_error.mp hrun
      exact Or.inr ⟨halt, rfl, hout⟩

theorem evalAll_programs (es : List Expr) (row : Row) :
    Program.evalAll (es.flatMap program) row = es.mapM (eval (some row)) := by
  rw [Program.evalAll]
  rcases run_cases (some row) es with ⟨values, hmap, hrun⟩ | ⟨halt, hmap, hrun⟩
  · rw [hmap, hrun]
    exact congrArg _ values.reverse_reverse
  · rw [hmap, hrun]

theorem alone_eq_eval (row : Row) (e : Expr) : e.alone row = e.eval (some row) := by
  have hrun : faultOnly (Program.runOn (some row) ([e].flatMap program) []) = _ :=
    runOn_program (some row) e [] []
  rw [alone, decode_codeOf]
  simp only [Runner.eval, Runner.bind, Runner.run, Program.run]
  cases heval : e.eval (some row) with
  | ok v =>
      rw [heval] at hrun
      rw [faultOnly_eq_ok.mp hrun]
      rfl
  | error f =>
      rw [heval] at hrun
      obtain ⟨halt, hout, rfl⟩ := faultOnly_eq_error.mp hrun
      rw [hout]
      rfl

end Expr

/-- The code of a list of expressions computes the expressions. It is decoded
to its end, and running it leaves their values on the stack, the first one at
the bottom, or fails as the first node does that fails when the trees are
evaluated. A projection by this code gives for each row the tuple of what the
expressions give when each is decoded and run on its own. -/
theorem run_codeOf (es : List Expr) (r : Runner) (row : Row) :
    let code := Expr.codeOf es
    let bound := ((r.decode code).2.bind row).2
    let project := Pipeline.decode (Expr.projectByte :: code)
    (r.decode code).1 = .ok code.length ∧
      (match es.mapM (Expr.eval (some row)) with
        | .ok values => bound.run.1 = .ok () ∧ bound.run.2.getAll = values
        | .error f => bound.run.1 = .error f) ∧
      project.1 = .ok (code.length + 1) ∧
      (project.2.put row).1 = (es.mapM (Expr.alone row)).map some := by
  intro code bound project
  have hbound : bound = ⟨es.flatMap Expr.program, some row, r.stack⟩ := by
    simp only [bound, code, Expr.decode_codeOf, Runner.bind]
  have hproject : project = (.ok (code.length + 1),
      Pipeline.ofPlan (.stage (.project (es.flatMap Expr.program)))) := by
    simp only [project, code, Pipeline.decode, Expr.readStages_codeOf]
    rfl
  refine ⟨by rw [Expr.decode_codeOf], ?_, by rw [hproject], ?_⟩
  · rw [hbound]
    simp only [Runner.run]
    rcases Expr.run_cases (some row) es with ⟨values, hmap, hrun⟩ | ⟨halt, hmap, hrun⟩
    · rw [hmap, hrun]
      exact ⟨rfl, values.reverse_reverse⟩
    · rw [hmap, hrun]
  · have halone : Expr.alone row = Expr.eval (some row) := funext (Expr.alone_eq_eval row)
    rw [hproject, halone]
    simp only [Pipeline.ofPlan, Pipeline.put, Plan.put, Stage.put, Expr.evalAll_programs]
    cases es.mapM (Expr.eval (some row)) <;> rfl

end RowCode
