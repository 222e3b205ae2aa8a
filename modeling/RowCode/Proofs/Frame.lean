import RowCode.Machine

/-!
# Stacks with more below them

A run that works on a stack of its own does the same with other operands below
it (`Program.framed_runOn`): it leaves them where they are, whether it ends or
fails. Only a run that takes more off the stack than it has put there would
find them, and that one fails with an underflow when they are not there.

So a program that is put behind another works on top of what the other has
left, and each may be looked at alone.
-/

namespace RowCode

/-- Two outcomes of a run, the second one over more operands. -/
inductive Framed (below : Stack) : Except Halt Stack → Except Halt Stack → Prop where
  | ok (stack : Stack) : Framed below (.ok stack) (.ok (stack ++ below))
  | halt {fault : Fault} (left : Stack) (h : fault ≠ .violation .stackUnderflow) :
      Framed below (.error ⟨fault, left⟩) (.error ⟨fault, left ++ below⟩)
  | underflow (left : Stack) (outcome : Except Halt Stack) :
      Framed below (.error ⟨.violation .stackUnderflow, left⟩) outcome

section

variable {below : Stack}

theorem Framed.fault (fault : Fault) (left : Stack) :
    Framed below (.error ⟨fault, left⟩) (.error ⟨fault, left ++ below⟩) := by
  by_cases h : fault = .violation .stackUnderflow
  · subst h
    exact .underflow left _
  · exact .halt left h

theorem Framed.bind {x x' : Except Halt Stack} {f f' : Stack → Except Halt Stack}
    (h : Framed below x x') (hf : ∀ stack, Framed below (f stack) (f' (stack ++ below))) :
    Framed below (x >>= f) (x' >>= f') := by
  cases h with
  | ok stack => exact hf stack
  | halt left h => exact .halt left h
  | underflow left outcome => exact .underflow left _

theorem Framed.of_ok {stack : Stack} {outcome : Except Halt Stack}
    (h : Framed below (.ok stack) outcome) : outcome = .ok (stack ++ below) := by
  cases h with
  | ok => rfl

theorem Framed.of_halt {fault : Fault} {left : Stack} {outcome : Except Halt Stack}
    (h : Framed below (.error ⟨fault, left⟩) outcome)
    (hfault : fault ≠ .violation .stackUnderflow) :
    outcome = .error ⟨fault, left ++ below⟩ := by
  cases h with
  | halt => rfl
  | underflow => exact absurd rfl hfault

theorem framed_popAs_bind {t : Ty} {stack : Stack}
    {f f' : Option t.Carrier × Stack → Except Halt Stack}
    (hf : ∀ x rest, Framed below (f (x, rest)) (f' (x, rest ++ below))) :
    Framed below (popAs t stack >>= f) (popAs t (stack ++ below) >>= f') := by
  cases stack with
  | nil => exact .underflow [] _
  | cons v rest =>
      rw [List.cons_append, popAs, popAs]
      cases v.unwrap t with
      | ok x => exact hf x rest
      | error e => exact .fault e rest

theorem framed_push (t : Ty) (rest : Stack) (result : Except Fault (Option t.Carrier)) :
    Framed below (push t rest result) (push t (rest ++ below) result) := by
  cases result with
  | ok x => exact .ok (x.map t.wrap :: rest)
  | error e => exact .fault e rest

/-- An operator takes its arguments off one by one and puts one result back. -/
theorem Kernel.framed_apply (k : Kernel) (stack : Stack) :
    Framed below (k.apply stack) (k.apply (stack ++ below)) := by
  cases k with
  | strict1 =>
      refine framed_popAs_bind ?_
      intro x rest
      exact framed_push _ rest _
  | strict2 =>
      refine framed_popAs_bind ?_
      intro y rest
      refine framed_popAs_bind ?_
      intro x rest
      exact framed_push _ rest _
  | strict3 =>
      refine framed_popAs_bind ?_
      intro z rest
      refine framed_popAs_bind ?_
      intro y rest
      refine framed_popAs_bind ?_
      intro x rest
      exact framed_push _ rest _
  | lenient1 =>
      refine framed_popAs_bind ?_
      intro x rest
      exact framed_push _ rest _
  | lenient2 =>
      refine framed_popAs_bind ?_
      intro y rest
      refine framed_popAs_bind ?_
      intro x rest
      exact framed_push _ rest _

theorem Instr.framed_step (i : Instr) (row : Option Row) (stack : Stack) :
    Framed below (i.step row stack) (i.step row (stack ++ below)) := by
  cases i with
  | null t => exact .ok (none :: stack)
  | const v => exact .ok (some v :: stack)
  | column index t =>
      rw [step, step]
      cases readColumn row index with
      | ok v => exact .ok (v :: stack)
      | error e => exact .fault e stack
  | op o => exact o.kernel.framed_apply stack

namespace Program

theorem framed_runOn (row : Option Row) : ∀ (p : Program) (stack : Stack),
    Framed below (runOn row p stack) (runOn row p (stack ++ below))
  | [], stack => .ok stack
  | i :: p, stack => (i.framed_step row stack).bind fun stack => framed_runOn row p stack

/-- What a run leaves on a stack of its own, it leaves on top of any other. -/
theorem runOn_of_run {row : Option Row} {p : Program} {stack : Stack}
    (h : p.run row = .ok stack) (below : Stack) :
    runOn row p below = .ok (stack ++ below) := by
  have hframed : Framed below (p.run row) (runOn row p below) := framed_runOn row p []
  rw [h] at hframed
  exact hframed.of_ok

/-- Programs one behind the other. -/
theorem runOn_append (row : Option Row) (q : Program) : ∀ (p : Program) (stack : Stack),
    runOn row (p ++ q) stack = runOn row p stack >>= runOn row q
  | [], _ => rfl
  | i :: p, stack => by
      rw [List.cons_append, runOn, runOn]
      cases i.step row stack with
      | ok stack' => exact runOn_append row q p stack'
      | error halt => rfl

/-- A run never looks below its own operands. What it does on an empty stack, it does on top of
`base`, which stays as it is: it ends with the same operands, or it stops at the same fault with
the same operands left. Only an underflow says nothing about other stacks. The top of a stack
comes first, so `base` is the end of the list. -/
theorem run_on_base (p : Program) (row : Option Row) (base : Stack) :
    (∀ stack, p.run row = .ok stack → runOn row p base = .ok (stack ++ base)) ∧
      ∀ fault left, p.run row = .error ⟨fault, left⟩ → fault ≠ .violation .stackUnderflow →
        runOn row p base = .error ⟨fault, left ++ base⟩ := by
  refine ⟨fun stack h => runOn_of_run h base, ?_⟩
  intro fault left h hfault
  have hframed : Framed base (p.run row) (runOn row p base) := framed_runOn row p []
  rw [h] at hframed
  exact hframed.of_halt hfault

/-- A sum whose right operand is a string stops when that one is off the stack and the left one is
still on it, be there operands below it or not. -/
theorem run_on_base_midway :
    let p : Program := [.const (.int32 5), .const (.string "a"), .op (.arith .add .int32)]
    let fault : Fault := .violation (.operandType .int32 (some (.string "a")))
    p.run none = .error ⟨fault, [some (.int32 5)]⟩ ∧ fault ≠ .violation .stackUnderflow ∧
      runOn none p [some (.bool true)] =
        .error ⟨fault, [some (.int32 5)] ++ [some (.bool true)]⟩ :=
  ⟨rfl, nofun, (run_on_base _ none [some (.bool true)]).2 _ _ rfl nofun⟩

end Program

end

end RowCode
