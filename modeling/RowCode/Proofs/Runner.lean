import Mathlib.Data.List.Induction
import RowCode.Proofs.Pipeline.Rig

/-!
# Histories of runners

Whatever a runner went through, a run depends on two things: the last code that
was decoded, also if decoding failed, and the row that is bound. A runner with
a long history runs like a new one on which nothing was done but these two
(`settings`). The reason is that every call touches few parts of a runner
(`Call.touched`) and sets those to values that do not depend on the other
parts, so each part has the value that the last call gave it.
-/

namespace RowCode

namespace Runner

/-- A call of a runner. -/
inductive Call where
  | decode (code : Bytes)
  | bind (row : Row)
  | unbind
  | run
  | eval (row : Row)
  | get
  | getAs (t : Ty)
  | getAll
  | takeAll
  | result
deriving Repr, DecidableEq

/-- The parts of a runner. -/
inductive Part where
  | program
  | bound
  | stack
deriving Repr, DecidableEq

/-- Two runners have a part in common. -/
def Agree (r r' : Runner) : Part → Prop
  | .program => r.program = r'.program
  | .bound => r.bound = r'.bound
  | .stack => r.stack = r'.stack

namespace Call

/-- The runner that a call leaves, whether it succeeds or fails. -/
def apply (r : Runner) : Call → Runner
  | decode code => (r.decode code).2
  | bind row => (r.bind row).2
  | unbind => r.unbind.2
  | run => r.run.2
  | eval row => (r.eval row).2
  | takeAll => r.takeAll.2
  | get | getAs _ | getAll | result => r

/-- The parts that a call may change. -/
def touched : Call → List Part
  | decode _ => [.program]
  | bind _ | unbind => [.bound]
  | run | takeAll => [.stack]
  | eval _ => [.bound, .stack]
  | get | getAs _ | getAll | result => []

/-- The code that is decoded. -/
def code? : Call → Option Bytes
  | decode code => some code
  | _ => none

/-- What is bound behind the call, if the call decides that: a row or none. -/
def binding? : Call → Option (Option Row)
  | bind row => some (some row)
  | unbind | eval _ => some none
  | _ => none

end Call

/-- The runner that calls leave, made one after the other. -/
def after (r : Runner) (calls : List Call) : Runner :=
  calls.foldl Call.apply r

/-- The last value that a function of calls has in a history. -/
def last? {α : Type} (f : Call → Option α) (calls : List Call) : Option α :=
  calls.reverse.findSome? f

/-- The calls that still count behind a history: the last code is decoded, and
the row that is bound behind all calls is bound. -/
def settings (calls : List Call) : List Call :=
  ((last? Call.code? calls).map .decode).toList ++
    ((last? Call.binding? calls).join.map .bind).toList

theorem last?_append_singleton {α : Type} (f : Call → Option α) (calls : List Call) (c : Call) :
    last? f (calls ++ [c]) = (f c).or (last? f calls) := by
  rw [last?, List.reverse_append, List.reverse_singleton, List.singleton_append,
    List.findSome?_cons]
  cases f c <;> rfl

theorem after_append_singleton (r : Runner) (calls : List Call) (c : Call) :
    r.after (calls ++ [c]) = c.apply (r.after calls) := by
  rw [after, List.foldl_append]
  rfl

/-! ## Single calls -/

/-- The program that a code is decoded to; none if it cannot be read. -/
def programOf (code : Bytes) : Program :=
  (new.decode code).2.program

theorem decode_eq (r : Runner) (code : Bytes) :
    r.decode code = ((new.decode code).1, { r with program := programOf code }) := by
  rw [programOf, decode, decode]
  cases Code.readProgram code <;> rfl

/-- A run starts on an empty stack, so what was on it plays no part. -/
theorem run_congr {r r' : Runner} (hprogram : r.program = r'.program)
    (hbound : r.bound = r'.bound) : r.run = r'.run := by
  rw [run, run, hprogram, hbound]

theorem eval_congr {r r' : Runner} (hprogram : r.program = r'.program) (row : Row) :
    r.eval row = r'.eval row := by
  have hrun : (r.bind row).2.run = (r'.bind row).2.run := run_congr hprogram rfl
  simp only [eval, hrun]

theorem run_bound (r : Runner) : r.run.2.bound = r.bound := by
  rw [run]
  split <;> rfl

theorem apply_program (r : Runner) (c : Call) :
    (c.apply r).program = c.code?.elim r.program programOf := by
  cases c with
  | decode code =>
      rw [Call.apply, decode_eq]
      rfl
  | run => exact run_program r
  | eval row => exact eval_program r row
  | _ => rfl

theorem apply_bound (r : Runner) (c : Call) :
    (c.apply r).bound = c.binding?.getD r.bound := by
  cases c with
  | decode code =>
      rw [Call.apply, decode_eq]
      rfl
  | run => exact run_bound r
  | _ => rfl

/-- A call leaves the parts that it does not touch as they are. -/
theorem apply_frame (r : Runner) {c : Call} {part : Part} (h : part ∉ c.touched) :
    Agree (c.apply r) r part := by
  cases part with
  | program =>
      rw [Agree, apply_program]
      cases c with
      | decode code => exact absurd (List.mem_singleton_self _) h
      | _ => rfl
  | bound =>
      rw [Agree, apply_bound]
      cases c with
      | bind row => exact absurd (List.mem_singleton_self _) h
      | unbind => exact absurd (List.mem_singleton_self _) h
      | eval row => exact absurd (List.mem_cons_self ..) h
      | _ => rfl
  | stack =>
      rw [Agree]
      cases c with
      | decode code =>
          rw [Call.apply, decode_eq]
      | run => exact absurd (List.mem_singleton_self _) h
      | eval row => exact absurd (List.mem_cons_of_mem _ (List.mem_singleton_self _)) h
      | takeAll => exact absurd (List.mem_singleton_self _) h
      | _ => rfl

/-! ## Sequences of calls -/

theorem after_program (r : Runner) (calls : List Call) :
    (r.after calls).program = (last? Call.code? calls).elim r.program programOf := by
  induction calls using List.reverseRecOn with
  | nil => rfl
  | append_singleton calls c ih =>
      rw [after_append_singleton, apply_program, ih, last?_append_singleton]
      cases c.code? <;> rfl

theorem after_bound (r : Runner) (calls : List Call) :
    (r.after calls).bound = (last? Call.binding? calls).getD r.bound := by
  induction calls using List.reverseRecOn with
  | nil => rfl
  | append_singleton calls c ih =>
      rw [after_append_singleton, apply_bound, ih, last?_append_singleton]
      cases c.binding? <;> rfl

/-- The settings of a history decide as much as the history. -/
theorem last?_settings (calls : List Call) :
    last? Call.code? (settings calls) = last? Call.code? calls ∧
      (last? Call.binding? (settings calls)).join = (last? Call.binding? calls).join := by
  rw [settings]
  cases last? Call.code? calls <;> cases (last? Call.binding? calls).join <;> exact ⟨rfl, rfl⟩

/-- A new runner is as it is after its settings, up to the stack. -/
theorem after_settings (calls : List Call) :
    (new.after calls).program = (new.after (settings calls)).program ∧
      (new.after calls).bound = (new.after (settings calls)).bound := by
  obtain ⟨hcode, hbinding⟩ := last?_settings calls
  have hjoin : ∀ b : Option (Option Row), b.getD new.bound = b.join := by
    intro b
    cases b <;> rfl
  constructor
  · rw [after_program, after_program, hcode]
  · rw [after_bound, after_bound, hjoin, hjoin, hbinding]

theorem row_of_eval {r : Runner} {row row' : Row} {v : Operand}
    (h : (r.eval row).1 = .ok (v, row')) : row' = row := by
  rw [eval_outcome] at h
  cases hv : r.program.eval row with
  | error e =>
      rw [hv] at h
      cases h
  | ok v' =>
      rw [hv] at h
      cases h
      rfl

/-- Runners have no memory, and their calls keep to their parts. Behind any
calls, failed ones among them, a run and a run on a row have the outcome and
leave the runner that they would on a new runner with the same settings, which
is: the program that the last code is decoded to on any runner, no program if
decoding failed, and the bound row. A call changes only the parts that it
touches. A run on a row leaves no row bound, and if it succeeds it gives the
row back as it was. -/
theorem history_independent :
    (∀ calls : List Call,
      let r := new.after calls
      let fresh := new.after (settings calls)
      r.run = fresh.run ∧ ∀ row, r.eval row = fresh.eval row) ∧
    (∀ (r : Runner) (code : Bytes),
      (r.decode code).1 = (new.decode code).1 ∧
      (r.decode code).2.program = (new.decode code).2.program ∧
      ∀ e, (r.decode code).1 = .error e → (r.decode code).2.program = []) ∧
    (∀ (r : Runner) (c : Call) (part : Part), part ∉ c.touched → Agree (c.apply r) r part) ∧
    ∀ (r : Runner) (row : Row),
      (r.eval row).2.bound = none ∧ ∀ v row', (r.eval row).1 = .ok (v, row') → row' = row := by
  refine ⟨fun calls => ?_, fun r code => ⟨?_, ?_, fun e he => ?_⟩, fun r c part => apply_frame r,
    fun r row => ⟨rfl, fun v row' => row_of_eval⟩⟩
  · obtain ⟨hprogram, hbound⟩ := after_settings calls
    exact ⟨run_congr hprogram hbound, eval_congr hprogram⟩
  · rw [decode_eq]
  · rw [decode_eq]
    rfl
  · rw [decode] at he ⊢
    cases hread : Code.readProgram code with
    | ok p =>
        rw [hread] at he
        cases he
    | error e' => rfl

/-- Runs do not count, and the row of a run on a row is gone behind it. -/
example (code : Bytes) (row row' : Row) :
    settings [.bind row, .decode code, .run, .eval row'] = [.decode code] := rfl

end Runner

end RowCode
