import Mathlib.Data.List.Forall2
import RowCode.Proofs.Code.Word
import RowCode.Proofs.Operator.Faults
import RowCode.Runner

/-!
# Typed programs

Types of stacks, and what they promise. Each instruction has a signature: the
types it takes off the stack and the type it leaves. `Program.check` follows the
signatures from one instruction to the next, without running anything and
without a row.

A program that passes the check cannot go wrong in any way that is its own
fault (`runOn_expected`): on a row that suits it the run either ends with a
stack of the types found, null counting as every type, or fails because of the
values it met. The reader checks nothing of the kind, and code that does not
pass the check may well run without a fault.
-/

namespace RowCode

/-! ## Signatures -/

/-- The types of the arguments, the first one first, and of the result. -/
def Operator.signature : Operator → List Ty × Ty
  | sign _ t => ([t.ty], t.ty)
  | arith _ t => ([t.ty, t.ty], t.ty)
  | rem t => ([t.ty, t.ty], t.ty)
  | join _ => ([.string, .string], .string)
  | relation _ t => ([t.ty, t.ty], .bool)
  | extreme _ t => ([t.ty, t.ty], t.ty)
  | test _ t => ([t], .bool)
  | not => ([.bool], .bool)
  | connective _ => ([.bool, .bool], .bool)
  | cast _ src dst _ => ([src.ty], dst.ty)
  | math _ => ([.float64], .float64)
  | text _ => ([.string], .string)
  | cut _ => ([.string, .int32], .string)
  | range _ => ([.string, .int32, .int32], .string)

/-- An operator works on the types that it is announced for. -/
theorem Operator.signature_eq (op : Operator) :
    op.signature = (op.kernel.arguments.reverse, op.kernel.result) := by
  cases op <;> rfl

/-- The types on the stack behind an instruction, from those before it. The top
comes first. -/
def Instr.check (types : List Ty) : Instr → Option (List Ty)
  | null t => some (t.ty :: types)
  | const v => some (v.ty :: types)
  | column _ t => some (t :: types)
  | op o =>
    let (takes, gives) := o.signature
    if takes.reverse <+: types then some (gives :: types.drop takes.length) else none

def Program.check (types : List Ty) : Program → Option (List Ty)
  | [] => some types
  | i :: p => (i.check types).bind fun types => check types p

/-! ## Operands of a type -/

/-- An operand may stand where the type is announced; null may stand anywhere. -/
def Operand.Fits (t : Ty) : Operand → Prop
  | none => True
  | some v => v.ty = t

theorem Operand.fits_wrap (t : Ty) (x : Option t.Carrier) : Fits t (x.map t.wrap) := by
  cases x with
  | none => exact trivial
  | some x => exact t.ty_wrap x

/-- An operand that fits a type is a value of the type or null. -/
theorem Operand.Fits.unwrap {t : Ty} {v : Operand} (h : Fits t v) :
    ∃ x, v.unwrap t = .ok x := by
  cases v with
  | none => exact ⟨none, rfl⟩
  | some v =>
      obtain rfl : v.ty = t := h
      cases v <;> exact ⟨_, rfl⟩

/-- Operands of the types, one by one. -/
abbrev Stack.Fits (types : List Ty) (stack : Stack) : Prop :=
  List.Forall₂ Operand.Fits types stack

/-- A row has every column that a program reads, of the type that is announced
there or null. -/
def Row.Suits (row : Row) (p : Program) : Prop :=
  ∀ index t, Instr.column index t ∈ p → ∃ v, row[index]? = some v ∧ Operand.Fits t v

/-- The outcomes that typing leaves: a stack of the types, or a fault of values. -/
def Expected (types : List Ty) : Except Halt Stack → Prop
  | .ok stack => Stack.Fits types stack
  | .error halt => halt.fault.OfValue

/-! ## Steps -/

/-- An argument of its type is there and is taken off. -/
theorem expected_popAs_bind {t : Ty} {types types' : List Ty} {stack : Stack}
    {f : Option t.Carrier × Stack → Except Halt Stack} (h : Stack.Fits (t :: types) stack)
    (hf : ∀ x rest, Stack.Fits types rest → Expected types' (f (x, rest))) :
    Expected types' (popAs t stack >>= f) := by
  cases h with
  | cons hv hrest =>
      obtain ⟨x, hx⟩ := hv.unwrap
      rw [popAs, hx]
      exact hf x _ hrest

theorem expected_push {t : Ty} {types : List Ty} {rest : Stack}
    {result : Except Fault (Option t.Carrier)} (hrest : Stack.Fits types rest)
    (hresult : Tame result) : Expected (t :: types) (push t rest result) := by
  cases hresult with
  | ok x => exact List.Forall₂.cons (Operand.fits_wrap t x) hrest
  | error h => exact h

/-- An operator on arguments of its types. -/
theorem Kernel.expected_apply {types : List Ty} {stack : Stack} : ∀ {k : Kernel}, k.Tame →
    Stack.Fits (k.arguments ++ types) stack → Expected (k.result :: types) (k.apply stack)
  | strict1 a r f, htame, h => by
      refine expected_popAs_bind h fun x rest hrest => expected_push hrest ?_
      cases x with
      | none => exact .ok none
      | some x => exact htame x
  | strict2 a b r f, htame, h => by
      refine expected_popAs_bind h fun y rest hrest => ?_
      refine expected_popAs_bind hrest fun x rest hrest => expected_push hrest ?_
      cases x with
      | none => exact .ok none
      | some x =>
          cases y with
          | none => exact .ok none
          | some y => exact htame x y
  | strict3 a b c r f, htame, h => by
      refine expected_popAs_bind h fun z rest hrest => ?_
      refine expected_popAs_bind hrest fun y rest hrest => ?_
      refine expected_popAs_bind hrest fun x rest hrest => expected_push hrest ?_
      cases x with
      | none => exact .ok none
      | some x =>
          cases y with
          | none => exact .ok none
          | some y =>
              cases z with
              | none => exact .ok none
              | some z => exact htame x y z
  | lenient1 a r f, _, h =>
      expected_popAs_bind h fun _ _ hrest => expected_push hrest (.ok _)
  | lenient2 a b r f, _, h =>
      expected_popAs_bind h fun _ _ hrest =>
        expected_popAs_bind hrest fun _ _ hrest => expected_push hrest (.ok _)

/-- One instruction on a stack of the types that its signature asks for. -/
theorem Instr.expected_step {row : Row} {i : Instr} {types types' : List Ty} {stack : Stack}
    (hrow : Row.Suits row [i]) (hcheck : i.check types = some types')
    (h : Stack.Fits types stack) : Expected types' (i.step (some row) stack) := by
  cases i with
  | null t =>
      cases hcheck
      exact List.Forall₂.cons trivial h
  | const v =>
      cases hcheck
      exact List.Forall₂.cons (show v.ty = v.ty from rfl) h
  | column index t =>
      cases hcheck
      obtain ⟨v, hv, hfits⟩ := hrow index t (List.mem_singleton_self _)
      rw [step, readColumn]
      simp only [hv]
      exact List.Forall₂.cons hfits h
  | op o =>
      rw [check, o.signature_eq] at hcheck
      simp only [List.reverse_reverse, List.length_reverse] at hcheck
      split at hcheck
      · next harguments =>
        cases hcheck
        refine Kernel.expected_apply o.tame ?_
        obtain ⟨below, rfl⟩ := harguments
        rwa [List.drop_left]
      · cases hcheck

/-! ## Runs -/

/-- A program that passes the check, on a row that suits it. -/
theorem Program.expected_runOn {row : Row} : ∀ {p : Program} {types types' : List Ty}
    {stack : Stack}, row.Suits p → p.check types = some types' → Stack.Fits types stack →
    Expected types' (runOn (some row) p stack)
  | [], _, _, _, _, hcheck, h => by
      cases hcheck
      exact h
  | i :: p, types, types', stack, hrow, hcheck, h => by
      obtain ⟨between, hi, hp⟩ := Option.bind_eq_some_iff.mp hcheck
      have hfirst : row.Suits [i] := fun index t hmem =>
        hrow index t (List.mem_cons.mpr (Or.inl (List.mem_singleton.mp hmem)))
      have hrest : row.Suits p := fun index t hmem =>
        hrow index t (List.mem_cons_of_mem _ hmem)
      have hstep := Instr.expected_step hfirst hi h
      rw [runOn]
      cases hout : i.step (some row) stack with
      | error halt =>
          rw [hout] at hstep
          exact hstep
      | ok stack' =>
          rw [hout] at hstep
          exact expected_runOn hrest hp hstep

/-- What an instruction announces is the type that the check puts on top. -/
theorem Instr.head_of_check {i : Instr} {types types' : List Ty}
    (h : i.check types = some types') : types'.head? = some i.result := by
  cases i with
  | op o =>
      rw [check, o.signature_eq] at h
      simp only at h
      split at h
      · cases h
        rfl
      · cases h
  | _ =>
      cases h
      rfl

/-- A program announces the type that the check finds on top, and null if
there is none. -/
theorem Program.head_of_check : ∀ {p : Program} {types types' : List Ty}, p ≠ [] →
    p.check types = some types' → types'.head? = some p.result
  | [i], _, _, _, h => by
      obtain ⟨between, hi, hp⟩ := Option.bind_eq_some_iff.mp h
      cases hp
      exact Instr.head_of_check hi
  | i :: j :: p, _, _, _, h => by
      obtain ⟨between, -, hp⟩ := Option.bind_eq_some_iff.mp h
      have hlast := head_of_check (List.cons_ne_nil j p) hp
      rw [hlast]
      rfl

/-- Typed programs do not go wrong. If the program of a code passes the check,
then on every row that suits it a run leaves operands of exactly the types that
the check found, and what the runner gives is of the type that it announces; or
else the run fails with an overflow or with a cast that is not valid. It never
fails on the stack, on the type of an operand or on the row. -/
theorem run_typed {code : Bytes} {r : Runner} {row : Row} {types : List Ty}
    (hcheck : (r.decode code).2.program.check [] = some types)
    (hrow : row.Suits (r.decode code).2.program) :
    let bound := ((r.decode code).2.bind row).2
    (bound.run.1 = .ok () ∧ List.Forall₂ Operand.Fits types.reverse bound.run.2.getAll ∧
        bound.run.2.get.Fits bound.run.2.result) ∨
      ∃ f : Fault, bound.run.1 = .error f ∧ f.OfValue := by
  intro bound
  have hexpected := Program.expected_runOn hrow hcheck List.Forall₂.nil
  simp only [bound, Runner.bind, Runner.run, Program.run]
  cases hout : Program.runOn (some row) (r.decode code).2.program [] with
  | error halt =>
      rw [hout] at hexpected
      exact Or.inr ⟨halt.fault, rfl, hexpected⟩
  | ok stack =>
      rw [hout] at hexpected
      refine Or.inl ⟨rfl, List.forall₂_reverse_iff.mpr hexpected, ?_⟩
      by_cases hempty : (r.decode code).2.program = []
      · rw [hempty] at hcheck
        cases hcheck
        cases hexpected
        exact trivial
      · have hhead := Program.head_of_check hempty hcheck
        cases hexpected with
        | nil => cases hhead
        | cons hv hbelow =>
            cases hhead
            exact hv

/-- `$0<INT32> + 1` on a row that holds a number. -/
theorem run_typed_sum :
    let code : Bytes := [0x31, 0x00, 0x11, 0x01, 0x83, 0x01, 0x00]
    let row : Row := [some (.int32 4)]
    let bound := ((Runner.new.decode code).2.bind row).2
    (bound.run.1 = .ok () ∧ List.Forall₂ Operand.Fits [.int32] bound.run.2.getAll ∧
        bound.run.2.get.Fits bound.run.2.result) ∨
      ∃ f : Fault, bound.run.1 = .error f ∧ f.OfValue := by
  intro code row
  let zero : Code.Varint := ⟨[], 0, nofun, by decide, by decide⟩
  let one : Code.Varint := ⟨[], 1, nofun, by decide, by decide⟩
  have hprogram : (Runner.new.decode code).2.program =
      [.column 0 .int32, .const (.int32 1), .op (.arith .add .int32)] := by
    have hread : Code.readProgram code = _ := Code.readProgram_words []
      [.column zero .int32, .const (.int32 false one), .op (.arith .add .int32)]
    rw [Runner.decode, hread]
    rfl
  have hcheck : (Runner.new.decode code).2.program.check [] = some [.int32] := by
    rw [hprogram]
    rfl
  have hrow : row.Suits (Runner.new.decode code).2.program := by
    rw [hprogram]
    intro index t hmem
    simp only [List.mem_cons, List.not_mem_nil, or_false, reduceCtorEq,
      Instr.column.injEq] at hmem
    obtain ⟨rfl, rfl⟩ := hmem
    exact ⟨_, rfl, rfl⟩
  exact run_typed hcheck hrow

end RowCode
