import RowCode.Code.Instr
import RowCode.Machine

/-!
# What a step does

A step that succeeds, in the words of the values involved. `Kernel.Reduces` says
what an operator may do to a stack: it finds its arguments on top, each a value
of its type or null, and puts one result in their place. A strict operator with
a null argument has the result null; any other result is the one its function
gives. `Kernel.apply_eq_ok_iff` and `Instr.step_eq_ok_iff` say that there is
nothing else to a step.
-/

namespace RowCode

theorem Operand.unwrap_eq_ok_iff {t : Ty} {v : Operand} {x : Option t.Carrier} :
    v.unwrap t = .ok x ↔ v = x.map t.wrap := by
  cases v with
  | none => cases x <;> simp [unwrap]
  | some s =>
      rw [unwrap]
      cases hs : s.carried? t with
      | none =>
          cases x with
          | none => simp
          | some x =>
              have hne : s ≠ t.wrap x := fun h => by
                rw [Scalar.carried?_eq_some_iff.mpr h] at hs
                cases hs
              simpa using hne
      | some y =>
          rw [Scalar.carried?_eq_some_iff] at hs
          subst hs
          cases x with
          | none => simp
          | some x =>
              have hwrap : t.wrap y = t.wrap x ↔ y = x := by
                refine ⟨fun h => ?_, fun h => by rw [h]⟩
                have hy := Scalar.carried?_wrap t y
                rw [h, Scalar.carried?_wrap] at hy
                exact (Option.some.inj hy).symm
              simp [hwrap]

theorem popAs_eq_ok_iff {t : Ty} {stack rest : Stack} {x : Option t.Carrier} :
    popAs t stack = .ok (x, rest) ↔ stack = x.map t.wrap :: rest := by
  cases stack with
  | nil => simp [popAs]
  | cons v below =>
      rw [popAs, List.cons.injEq, ← Operand.unwrap_eq_ok_iff]
      cases v.unwrap t <;> simp

theorem push_eq_ok_iff {t : Ty} {rest stack : Stack} {result : Except Fault (Option t.Carrier)} :
    push t rest result = .ok stack ↔ ∃ z, result = .ok z ∧ stack = z.map t.wrap :: rest := by
  cases result with
  | ok z => simp [push, eq_comm]
  | error e => simp [push]

theorem popAs_wrap (t : Ty) (x : t.Carrier) (rest : Stack) :
    popAs t (some (t.wrap x) :: rest) = .ok (some x, rest) :=
  popAs_eq_ok_iff.mpr rfl

namespace Kernel

variable {a b r : Ty}

/-- A strict operator on a value of its type pushes what its function gives. -/
theorem apply_strict1 (f : a.Carrier → Except Fault (Option r.Carrier)) (x : a.Carrier)
    (rest : Stack) : (strict1 a r f).apply (some (a.wrap x) :: rest) = push r rest (f x) := by
  simp only [apply, popAs_wrap, bind, Except.bind]

theorem apply_strict2 (f : a.Carrier → b.Carrier → Except Fault (Option r.Carrier))
    (x : a.Carrier) (y : b.Carrier) (rest : Stack) :
    (strict2 a b r f).apply (some (b.wrap y) :: some (a.wrap x) :: rest) =
      push r rest (f x y) := by
  simp only [apply, popAs_wrap, bind, Except.bind]

end Kernel

/-- What an operator that succeeds makes of a stack. -/
inductive Kernel.Reduces (rest : Stack) : Kernel → Stack → Stack → Prop where
  | strict1 {a r : Ty} {f : a.Carrier → Except Fault (Option r.Carrier)} {x : a.Carrier}
      {z : Option r.Carrier} (h : f x = .ok z) :
      Reduces rest (.strict1 a r f) (some (a.wrap x) :: rest) (z.map r.wrap :: rest)
  | null1 {a r : Ty} {f : a.Carrier → Except Fault (Option r.Carrier)} :
      Reduces rest (.strict1 a r f) (none :: rest) (none :: rest)
  | strict2 {a b r : Ty} {f : a.Carrier → b.Carrier → Except Fault (Option r.Carrier)}
      {x : a.Carrier} {y : b.Carrier} {z : Option r.Carrier} (h : f x y = .ok z) :
      Reduces rest (.strict2 a b r f) (some (b.wrap y) :: some (a.wrap x) :: rest)
        (z.map r.wrap :: rest)
  | null2 {a b r : Ty} {f : a.Carrier → b.Carrier → Except Fault (Option r.Carrier)}
      {x : Option a.Carrier} {y : Option b.Carrier} (h : x = none ∨ y = none) :
      Reduces rest (.strict2 a b r f) (y.map b.wrap :: x.map a.wrap :: rest) (none :: rest)
  | strict3 {a b c r : Ty}
      {f : a.Carrier → b.Carrier → c.Carrier → Except Fault (Option r.Carrier)}
      {x : a.Carrier} {y : b.Carrier} {z : c.Carrier} {v : Option r.Carrier}
      (h : f x y z = .ok v) :
      Reduces rest (.strict3 a b c r f)
        (some (c.wrap z) :: some (b.wrap y) :: some (a.wrap x) :: rest) (v.map r.wrap :: rest)
  | null3 {a b c r : Ty}
      {f : a.Carrier → b.Carrier → c.Carrier → Except Fault (Option r.Carrier)}
      {x : Option a.Carrier} {y : Option b.Carrier} {z : Option c.Carrier}
      (h : x = none ∨ y = none ∨ z = none) :
      Reduces rest (.strict3 a b c r f)
        (z.map c.wrap :: y.map b.wrap :: x.map a.wrap :: rest) (none :: rest)
  | lenient1 {a r : Ty} {f : Option a.Carrier → Option r.Carrier} (x : Option a.Carrier) :
      Reduces rest (.lenient1 a r f) (x.map a.wrap :: rest) ((f x).map r.wrap :: rest)
  | lenient2 {a b r : Ty} {f : Option a.Carrier → Option b.Carrier → Option r.Carrier}
      (x : Option a.Carrier) (y : Option b.Carrier) :
      Reduces rest (.lenient2 a b r f) (y.map b.wrap :: x.map a.wrap :: rest)
        ((f x y).map r.wrap :: rest)

theorem Kernel.Reduces.of_apply {k : Kernel} {stack stack' : Stack}
    (h : k.apply stack = .ok stack') : ∃ rest, k.Reduces rest stack stack' := by
  cases k with
  | strict1 a r f =>
      obtain ⟨⟨x, rest⟩, hx, h⟩ := Code.bind_eq_ok.mp h
      obtain ⟨z, hz, rfl⟩ := push_eq_ok_iff.mp h
      rw [popAs_eq_ok_iff] at hx
      subst hx
      refine ⟨rest, ?_⟩
      cases x with
      | none =>
          cases hz
          exact .null1
      | some x => exact .strict1 hz
  | strict2 a b r f =>
      obtain ⟨⟨y, below⟩, hy, h⟩ := Code.bind_eq_ok.mp h
      obtain ⟨⟨x, rest⟩, hx, h⟩ := Code.bind_eq_ok.mp h
      obtain ⟨z, hz, rfl⟩ := push_eq_ok_iff.mp h
      rw [popAs_eq_ok_iff] at hx hy
      subst hx hy
      refine ⟨rest, ?_⟩
      cases x with
      | none =>
          cases hz
          exact .null2 (.inl rfl)
      | some x =>
          cases y with
          | none =>
              cases hz
              exact .null2 (.inr rfl)
          | some y => exact .strict2 hz
  | strict3 a b c r f =>
      obtain ⟨⟨z, below⟩, hz, h⟩ := Code.bind_eq_ok.mp h
      obtain ⟨⟨y, below'⟩, hy, h⟩ := Code.bind_eq_ok.mp h
      obtain ⟨⟨x, rest⟩, hx, h⟩ := Code.bind_eq_ok.mp h
      obtain ⟨v, hv, rfl⟩ := push_eq_ok_iff.mp h
      rw [popAs_eq_ok_iff] at hx hy hz
      subst hx hy hz
      refine ⟨rest, ?_⟩
      cases x with
      | none =>
          cases hv
          exact .null3 (.inl rfl)
      | some x =>
          cases y with
          | none =>
              cases hv
              exact .null3 (.inr (.inl rfl))
          | some y =>
              cases z with
              | none =>
                  cases hv
                  exact .null3 (.inr (.inr rfl))
              | some z => exact .strict3 hv
  | lenient1 a r f =>
      obtain ⟨⟨x, rest⟩, hx, h⟩ := Code.bind_eq_ok.mp h
      obtain ⟨z, hz, rfl⟩ := push_eq_ok_iff.mp h
      rw [popAs_eq_ok_iff] at hx
      subst hx
      cases hz
      exact ⟨rest, .lenient1 x⟩
  | lenient2 a b r f =>
      obtain ⟨⟨y, below⟩, hy, h⟩ := Code.bind_eq_ok.mp h
      obtain ⟨⟨x, rest⟩, hx, h⟩ := Code.bind_eq_ok.mp h
      obtain ⟨z, hz, rfl⟩ := push_eq_ok_iff.mp h
      rw [popAs_eq_ok_iff] at hx hy
      subst hx hy
      cases hz
      exact ⟨rest, .lenient2 x y⟩

theorem Kernel.Reduces.apply {k : Kernel} {rest stack stack' : Stack}
    (h : k.Reduces rest stack stack') : k.apply stack = .ok stack' := by
  cases h with
  | @strict1 a r f x z h =>
      refine Code.bind_eq_ok.mpr ⟨(some x, rest), popAs_eq_ok_iff.mpr rfl, ?_⟩
      exact push_eq_ok_iff.mpr ⟨z, h, rfl⟩
  | @null1 a r f =>
      refine Code.bind_eq_ok.mpr ⟨(none, rest), popAs_eq_ok_iff.mpr rfl, ?_⟩
      exact push_eq_ok_iff.mpr ⟨none, rfl, rfl⟩
  | @strict2 a b r f x y z h =>
      refine Code.bind_eq_ok.mpr ⟨(some y, _), popAs_eq_ok_iff.mpr rfl, ?_⟩
      refine Code.bind_eq_ok.mpr ⟨(some x, rest), popAs_eq_ok_iff.mpr rfl, ?_⟩
      exact push_eq_ok_iff.mpr ⟨z, h, rfl⟩
  | @null2 a b r f x y h =>
      refine Code.bind_eq_ok.mpr ⟨(y, _), popAs_eq_ok_iff.mpr rfl, ?_⟩
      refine Code.bind_eq_ok.mpr ⟨(x, rest), popAs_eq_ok_iff.mpr rfl, ?_⟩
      refine push_eq_ok_iff.mpr ⟨none, ?_, rfl⟩
      rcases h with rfl | rfl
      · rfl
      · cases x <;> rfl
  | @strict3 a b c r f x y z v h =>
      refine Code.bind_eq_ok.mpr ⟨(some z, _), popAs_eq_ok_iff.mpr rfl, ?_⟩
      refine Code.bind_eq_ok.mpr ⟨(some y, _), popAs_eq_ok_iff.mpr rfl, ?_⟩
      refine Code.bind_eq_ok.mpr ⟨(some x, rest), popAs_eq_ok_iff.mpr rfl, ?_⟩
      exact push_eq_ok_iff.mpr ⟨v, h, rfl⟩
  | @null3 a b c r f x y z h =>
      refine Code.bind_eq_ok.mpr ⟨(z, _), popAs_eq_ok_iff.mpr rfl, ?_⟩
      refine Code.bind_eq_ok.mpr ⟨(y, _), popAs_eq_ok_iff.mpr rfl, ?_⟩
      refine Code.bind_eq_ok.mpr ⟨(x, rest), popAs_eq_ok_iff.mpr rfl, ?_⟩
      refine push_eq_ok_iff.mpr ⟨none, ?_, rfl⟩
      rcases h with rfl | rfl | rfl
      · rfl
      · cases x <;> rfl
      · cases x <;> cases y <;> rfl
  | @lenient1 a r f x =>
      refine Code.bind_eq_ok.mpr ⟨(x, rest), popAs_eq_ok_iff.mpr rfl, ?_⟩
      exact push_eq_ok_iff.mpr ⟨f x, rfl, rfl⟩
  | @lenient2 a b r f x y =>
      refine Code.bind_eq_ok.mpr ⟨(y, _), popAs_eq_ok_iff.mpr rfl, ?_⟩
      refine Code.bind_eq_ok.mpr ⟨(x, rest), popAs_eq_ok_iff.mpr rfl, ?_⟩
      exact push_eq_ok_iff.mpr ⟨f x y, rfl, rfl⟩

theorem Kernel.apply_eq_ok_iff {k : Kernel} {stack stack' : Stack} :
    k.apply stack = .ok stack' ↔ ∃ rest, k.Reduces rest stack stack' :=
  ⟨Kernel.Reduces.of_apply, fun ⟨_, h⟩ => h.apply⟩

/-- What an instruction that succeeds makes of a stack. -/
inductive Instr.Reduces (row : Option Row) (stack : Stack) : Instr → Stack → Prop where
  | null (t : ValueTy) : Reduces row stack (.null t) (none :: stack)
  | const (v : Scalar) : Reduces row stack (.const v) (some v :: stack)
  | column {index : Nat} {t : Ty} {columns : Row} {v : Operand} (hrow : row = some columns)
      (hv : columns[index]? = some v) : Reduces row stack (.column index t) (v :: stack)
  | op {o : Operator} {rest stack' : Stack} (h : o.kernel.Reduces rest stack stack') :
      Reduces row stack (.op o) stack'

theorem Instr.Reduces.of_step {i : Instr} {row : Option Row} {stack stack' : Stack}
    (h : i.step row stack = .ok stack') : i.Reduces row stack stack' := by
  cases i with
  | null t =>
      cases h
      exact .null t
  | const v =>
      cases h
      exact .const v
  | column index t =>
      cases row with
      | none => cases h
      | some columns =>
          rw [step, readColumn] at h
          cases hv : columns[index]? with
          | none =>
              rw [hv] at h
              cases h
          | some v =>
              rw [hv] at h
              cases h
              exact .column rfl hv
  | op o =>
      obtain ⟨rest, h⟩ := Kernel.apply_eq_ok_iff.mp h
      exact .op h

theorem Instr.Reduces.step {i : Instr} {row : Option Row} {stack stack' : Stack}
    (h : i.Reduces row stack stack') : i.step row stack = .ok stack' := by
  cases h with
  | null t => rfl
  | const v => rfl
  | column hrow hv => simp [Instr.step, readColumn, hrow, hv]
  | op h => exact Kernel.apply_eq_ok_iff.mpr ⟨_, h⟩

theorem Instr.step_eq_ok_iff {i : Instr} {row : Option Row} {stack stack' : Stack} :
    i.step row stack = .ok stack' ↔ i.Reduces row stack stack' :=
  ⟨Instr.Reduces.of_step, Instr.Reduces.step⟩

theorem Program.runOn_singleton (row : Option Row) (i : Instr) (stack : Stack) :
    runOn row [i] stack = i.step row stack := by
  rw [runOn]
  cases i.step row stack <;> rfl

end RowCode
