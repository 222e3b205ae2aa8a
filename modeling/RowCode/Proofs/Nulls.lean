import RowCode.Proofs.Code.Word
import RowCode.Proofs.Step
import RowCode.Runner

/-!
# Nulls along a run

A strict operator gives null as soon as one of its arguments is null, so it
never takes a null off the stack without putting another in its place
(`Kernel.Reduces.none_mem`). The instructions that push an operand take nothing
off. Hence in a program without tests and connectives a null that was pushed
once, wherever it came from, leaves a null on the stack for good
(`Program.none_mem_of_pushed`), and if a single operand is left in the end, it
is that null.

Tests and connectives are the ones that see nulls, and may well answer one with
a value. Nothing is said of runs that fail.
-/

namespace RowCode

/-! ## Strict programs -/

def Kernel.Strict : Kernel → Prop
  | strict1 _ _ _ => True
  | strict2 _ _ _ _ => True
  | strict3 _ _ _ _ _ => True
  | lenient1 _ _ _ => False
  | lenient2 _ _ _ _ => False

/-- All operators but the tests, the negation and the connectives. -/
def Operator.Strict : Operator → Prop
  | test _ _ => False
  | not => False
  | connective _ => False
  | _ => True

def Instr.Strict : Instr → Prop
  | op o => o.Strict
  | _ => True

def Program.Strict (p : Program) : Prop :=
  ∀ i ∈ p, i.Strict

theorem Operator.Strict.kernel : ∀ {o : Operator}, o.Strict → o.kernel.Strict
  | sign _ _, _ => trivial
  | arith _ _, _ => trivial
  | rem _, _ => trivial
  | join _, _ => trivial
  | relation _ _, _ => trivial
  | extreme _ _, _ => trivial
  | cast _ _ _ _, _ => trivial
  | math _, _ => trivial
  | text _, _ => trivial
  | cut _, _ => trivial
  | range _, _ => trivial

/-! ## Steps -/

section

variable {k : Kernel} {i : Instr} {row : Option Row} {rest stack stack' : Stack}

/-- A null among the arguments makes the result null, and what lies below the
arguments stays. -/
theorem Kernel.Reduces.none_mem (h : k.Reduces rest stack stack') (hk : k.Strict)
    (hnull : none ∈ stack) : none ∈ stack' := by
  cases h with
  | strict1 h =>
      have hrest : none ∈ rest := by simpa using hnull
      exact List.mem_cons_of_mem _ hrest
  | strict2 h =>
      have hrest : none ∈ rest := by simpa using hnull
      exact List.mem_cons_of_mem _ hrest
  | strict3 h =>
      have hrest : none ∈ rest := by simpa using hnull
      exact List.mem_cons_of_mem _ hrest
  | null1 => exact List.mem_cons_self
  | null2 h => exact List.mem_cons_self
  | null3 h => exact List.mem_cons_self
  | lenient1 x => exact hk.elim
  | lenient2 x y => exact hk.elim

theorem Instr.Reduces.none_mem (h : i.Reduces row stack stack') (hi : i.Strict)
    (hnull : none ∈ stack) : none ∈ stack' := by
  cases h with
  | null t => exact List.mem_cons_self
  | const v => exact List.mem_cons_of_mem _ hnull
  | column hrow hv => exact List.mem_cons_of_mem _ hnull
  | op h => exact h.none_mem hi.kernel hnull

/-- A step puts one operand on top of what it leaves of the stack. -/
theorem Kernel.Reduces.exists_push (h : k.Reduces rest stack stack') :
    ∃ v, stack' = v :: rest := by
  cases h <;> exact ⟨_, rfl⟩

theorem Instr.Reduces.exists_push (h : i.Reduces row stack stack') :
    ∃ v rest, stack' = v :: rest := by
  cases h with
  | null t => exact ⟨_, _, rfl⟩
  | const v => exact ⟨_, _, rfl⟩
  | column hrow hv => exact ⟨_, _, rfl⟩
  | op h =>
      obtain ⟨v, hv⟩ := h.exists_push
      exact ⟨v, _, hv⟩

end

/-! ## Runs -/

namespace Program

/-- The operands that a run pushes, one for each step, up to its end or to the
step that fails. -/
def pushed (row : Option Row) : Program → Stack → List Operand
  | [], _ => []
  | i :: p, stack =>
    match i.step row stack with
    | .ok stack => top stack :: pushed row p stack
    | .error _ => []

theorem Strict.of_cons {i : Instr} {p : Program} (h : Program.Strict (i :: p)) :
    i.Strict ∧ p.Strict :=
  List.forall_mem_cons.mp h

variable {row : Option Row}

/-- A null that is there stays there, or is replaced by another. -/
theorem none_mem_runOn : ∀ {p : Program} {stack stack' : Stack}, p.Strict → none ∈ stack →
    runOn row p stack = .ok stack' → none ∈ stack'
  | [], _, _, _, hnull, hrun => by
      cases hrun
      exact hnull
  | i :: p, stack, stack', hstrict, hnull, hrun => by
      obtain ⟨between, hstep, hrun⟩ := Code.bind_eq_ok.mp hrun
      have hbetween := (Instr.step_eq_ok_iff.mp hstep).none_mem hstrict.of_cons.1 hnull
      exact none_mem_runOn hstrict.of_cons.2 hbetween hrun

/-- So does one that is pushed on the way. -/
theorem none_mem_of_pushed : ∀ {p : Program} {stack stack' : Stack}, p.Strict →
    none ∈ p.pushed row stack → runOn row p stack = .ok stack' → none ∈ stack'
  | [], _, _, _, hpushed, _ => by cases hpushed
  | i :: p, stack, stack', hstrict, hpushed, hrun => by
      obtain ⟨between, hstep, hrun⟩ := Code.bind_eq_ok.mp hrun
      rw [pushed, hstep] at hpushed
      rcases List.mem_cons.mp hpushed with htop | hlater
      · obtain ⟨v, rest, rfl⟩ := (Instr.step_eq_ok_iff.mp hstep).exists_push
        obtain rfl : none = v := htop
        exact none_mem_runOn hstrict.of_cons.2 List.mem_cons_self hrun
      · exact none_mem_of_pushed hstrict.of_cons.2 hlater hrun

end Program

/-- Nulls come through. If a decoded program has no test and no connective, and
a run of it on a row pushes a null anywhere, be it a literal, a column or the
quotient by a zero, then a run that succeeds with a single operand left has null
for its result. -/
theorem run_null_of_pushed {code : Bytes} {r : Runner} {row : Row} {v : Operand}
    (hstrict : (r.decode code).2.program.Strict)
    (hpushed : none ∈ (r.decode code).2.program.pushed (some row) []) :
    let bound := ((r.decode code).2.bind row).2
    bound.run.1 = .ok () → bound.run.2.getAll = [v] → v = none := by
  intro bound hrun hleft
  simp only [bound, Runner.bind, Runner.run, Program.run, Runner.getAll] at hrun hleft
  cases hout : Program.runOn (some row) (r.decode code).2.program [] with
  | error halt =>
      rw [hout] at hrun
      cases hrun
  | ok stack =>
      have hnull := Program.none_mem_of_pushed hstrict hpushed hout
      rw [hout] at hleft
      rw [List.reverse_eq_iff] at hleft
      obtain rfl : stack = [v] := hleft
      exact (List.mem_singleton.mp hnull).symm

/-- `$0<INT32> / $1<INT32> + 1` on a row with a zero for the divisor. -/
theorem run_null_of_pushed_quotient :
    let code : Bytes := [0x31, 0x00, 0x31, 0x01, 0x86, 0x01, 0x11, 0x01, 0x83, 0x01, 0x00]
    let row : Row := [some (.int32 7), some (.int32 0)]
    let bound := ((Runner.new.decode code).2.bind row).2
    (Runner.new.decode code).2.program.Strict ∧
      none ∈ (Runner.new.decode code).2.program.pushed (some row) [] ∧
      bound.run.1 = .ok () ∧ bound.run.2.getAll = [bound.run.2.get] ∧
      bound.run.2.get = none := by
  intro code row bound
  let zero : Code.Varint := ⟨[], 0, nofun, by decide, by decide⟩
  let one : Code.Varint := ⟨[], 1, nofun, by decide, by decide⟩
  have hprogram : (Runner.new.decode code).2.program =
      [.column 0 .int32, .column 1 .int32, .op (.arith .div .int32), .const (.int32 1),
        .op (.arith .add .int32)] := by
    have hread : Code.readProgram code = _ := Code.readProgram_words []
      [.column zero .int32, .column one .int32, .op (.arith .div .int32),
        .const (.int32 false one), .op (.arith .add .int32)]
    rw [Runner.decode, hread]
    rfl
  have hstrict : (Runner.new.decode code).2.program.Strict := by
    rw [hprogram]
    simp [Program.Strict, Instr.Strict, Operator.Strict]
  have hpushed : none ∈ (Runner.new.decode code).2.program.pushed (some row) [] := by
    rw [hprogram]
    exact List.mem_of_getElem? (i := 2) rfl
  have hrun : bound.run.1 = .ok () := by
    simp only [bound, Runner.bind, Runner.run, hprogram]
    rfl
  have hleft : bound.run.2.getAll = [bound.run.2.get] := by
    simp only [bound, Runner.bind, Runner.run, hprogram]
    rfl
  exact ⟨hstrict, hpushed, hrun, hleft, run_null_of_pushed hstrict hpushed hrun hleft⟩

end RowCode
